import OriginDB.Websocket.Messages
/-!
# Who a reducer is told is calling (`host_functions.cpp:449-465`, `wasm_engine.cpp:359-371`,
`websocket_server.cpp:588-635`, `wasm_service_impl.cpp:247-295`)

`host_sender` gives a reducer the identity in its `ReducerContext`. Over the websocket the server takes it from
`client_ids_`; over gRPC it copies a field of the request.

A connection that gets here has passed the check of its token. `callers` and `calls` are history: the connections
in the order in which they came, and the calls with the context they were made in.
-/
namespace OriginDB

open JsonDoc ByteCodec Machine

/-- `WasmValue`; a double by its bits. -/
inductive WasmValue where
  | null
  | bool (b : Bool)
  | int64 (v : Int64)
  | double (bits : UInt64)
  | string (s : Bytes)
  | bytes (b : Bytes)
deriving DecidableEq

/-- `ReducerContext` (wasm_engine.h:32) without the engines. -/
structure ReducerContext where
  senderIdentity : Bytes := []
  moduleIdentity : Bytes := []
  connectionId : Bytes := []
  timestampMicros : Int64 := 0
deriving DecidableEq

/-- `CreateReducerContext` (wasm_engine.cpp:359). -/
def createReducerContext (senderIdentity connectionId : Bytes) (now : Int64) : ReducerContext :=
  { senderIdentity := senderIdentity, connectionId := connectionId, timestampMicros := now }

/-- `HostSender` (host_functions.cpp:453): the length it returns and the bytes it writes. -/
def hostSender (rctx : ReducerContext) : Int32 × Bytes :=
  if rctx.senderIdentity = [] then (0, []) else (Int32.ofInt rctx.senderIdentity.length, rctx.senderIdentity)

/-- `ExecuteReducerRequest` (origindb.proto:162). -/
structure ExecuteReducerRequest where
  moduleName : Bytes
  reducerName : Bytes
  senderIdentity : Bytes := []
  connectionId : Bytes := []
  args : List WasmValue := []
deriving DecidableEq

/-- The conversion of an argument in `HandleCallReducer` (websocket_server.cpp:617-622). -/
def jsonArg : Json → WasmValue
  | .bool b => .bool b
  | .int v => .int64 (Int64.ofInt v)
  | .float bits => .double bits
  | .string s => .string s
  | _ => .null

structure CalledReducer where
  moduleName : Bytes
  reducerName : Bytes
  args : List WasmValue

/-- The call a message asks for, if `HandleCallReducer` (websocket_server.cpp:588) makes one. -/
def calledReducer (J : JsonLib) (message : Bytes) : Option CalledReducer := do
  let request ← J.parse message
  let type ← request.valueOr (str "type") []
  if type ≠ str "call_reducer" then none
  else
    let _ ← request.valueOr (str "id") []
    let moduleName ← request.valueOr (str "module") []
    let reducerName ← request.valueOr (str "reducer") []
    if moduleName = [] ∨ reducerName = [] then none
    else
      let args := match request.constMember (str "args") with
        | some (.array l) => l.map jsonArg
        | _ => []
      return { moduleName := moduleName, reducerName := reducerName, args := args }

inductive Channel where
  | websocket (socket : Nat) (now : Int64)
  | grpc
deriving DecidableEq

structure Caller where
  channel : Channel
  gone : Bool := false

/-- What the caller sent. -/
inductive Sent where
  | message (text : Bytes)
  | request (r : ExecuteReducerRequest)
deriving DecidableEq

structure ReducerCall where
  caller : Nat
  sent : Sent
  rctx : ReducerContext
deriving DecidableEq

structure Gateway where
  callers : List Caller := []
  server : WebSocketServer := {}
  calls : List ReducerCall := []

namespace Gateway

inductive Label where
  | upgrade (socket : Nat) (now : Int64)
  | channel
  | message (i : Nat) (text : Bytes) (now : Int64)
  | execute (i : Nat) (request : ExecuteReducerRequest) (now : Int64)
  | disconnect (i : Nat)

/-- The context of `HandleCallReducer` (websocket_server.cpp:626-634). -/
def websocketContext (server : WebSocketServer) (socket : Nat) (moduleName : Bytes) (now : Int64) : ReducerContext :=
  let sender := server.clientId socket
  { createReducerContext sender sender now with moduleIdentity := moduleName }

/-- The context of `ExecuteReducer` (wasm_service_impl.cpp:288-290). -/
def grpcContext (request : ExecuteReducerRequest) (now : Int64) : ReducerContext :=
  { createReducerContext request.senderIdentity request.connectionId now with moduleIdentity := request.moduleName }

def step (J : JsonLib) (s : Gateway) : Label → Option Gateway
  | .upgrade socket now => (s.server.step J (.connected socket (Sockets.clientIdText socket now))).map fun server =>
      { s with server := server, callers := s.callers ++ [{ channel := .websocket socket now }] }
  | .channel => some { s with callers := s.callers ++ [{ channel := .grpc }] }
  | .message i text now =>
    match s.callers[i]? with
    | some ⟨.websocket socket _, false⟩ =>
      let call := (calledReducer J text).map fun called =>
        { caller := i, sent := .message text, rctx := websocketContext s.server socket called.moduleName now }
      (s.server.step J (.message socket text)).map fun server => { s with server := server, calls := s.calls ++ call.toList }
    | _ => none
  | .execute i request now =>
    match s.callers[i]? with
    | some ⟨.grpc, false⟩ =>
      some { s with calls := s.calls ++ [{ caller := i, sent := .request request, rctx := grpcContext request now }] }
    | _ => none
  | .disconnect i =>
    match s.callers[i]? with
    | some ⟨.websocket socket now, false⟩ => (s.server.step J (.disconnected socket)).map fun server =>
        { s with server := server, callers := s.callers.set i ⟨.websocket socket now, true⟩ }
    | some ⟨.grpc, false⟩ => some { s with callers := s.callers.set i ⟨.grpc, true⟩ }
    | _ => none

/-- The identity belongs to the connection: the same for all its calls, and no other's unless it is empty. -/
def Bound (a b : ReducerCall) : Prop :=
  if a.caller = b.caller then hostSender a.rctx = hostSender b.rctx
  else (hostSender a.rctx).2 ≠ [] → hostSender a.rctx ≠ hostSender b.rctx

/-- On one connection, requests that name a sender name the same one. -/
def SameSender : Sent → Sent → Prop
  | .request r, .request r' => r.senderIdentity = r'.senderIdentity
  | _, _ => True

/-- On two connections, a request names neither the sender another request names nor a websocket client, and two
websocket clients were not given one id. -/
def OtherSender : Channel × Sent → Channel × Sent → Prop
  | (_, .request r), (_, .request r') => r.senderIdentity = [] ∨ r.senderIdentity ≠ r'.senderIdentity
  | (.websocket socket now, .message _), (_, .request r) => r.senderIdentity ≠ Sockets.clientIdText socket now
  | (_, .request r), (.websocket socket now, .message _) => r.senderIdentity ≠ Sockets.clientIdText socket now
  | (.websocket socket now, .message _), (.websocket socket' now', .message _) =>
    Sockets.clientIdText socket now ≠ Sockets.clientIdText socket' now'
  | _, _ => True

def channelOf (s : Gateway) (i : Nat) : Channel := (s.callers[i]?.map Caller.channel).getD .grpc

/-- The condition on what two callers sent. -/
def Honest (s : Gateway) (a b : ReducerCall) : Prop :=
  if a.caller = b.caller then SameSender a.sent b.sent
  else OtherSender (s.channelOf a.caller, a.sent) (s.channelOf b.caller, b.sent)

/-! ## The invariant -/

/-- The sender a call was made as. -/
def AsSent : Channel → ReducerCall → Prop
  | .websocket socket now, ⟨_, .message _, rctx⟩ => rctx.senderIdentity = Sockets.clientIdText socket now
  | .grpc, ⟨_, .request r, rctx⟩ => rctx.senderIdentity = r.senderIdentity
  | _, _ => False

structure Inv (s : Gateway) : Prop where
  registered : ∀ (i : Nat) (socket : Nat) (now : Int64), s.callers[i]? = some ⟨.websocket socket now, false⟩ →
    s.server.clientIds.find? (fun p => p.1 = socket) = some (socket, Sockets.clientIdText socket now)
  sockets : ∀ (i j socket : Nat) (now now' : Int64), s.callers[i]? = some ⟨.websocket socket now, false⟩ →
    s.callers[j]? = some ⟨.websocket socket now', false⟩ → i = j
  calls : ∀ call ∈ s.calls, ∃ c, s.callers[call.caller]? = some c ∧ AsSent c.channel call

theorem Inv.boot : Inv {} := by constructor <;> simp

section
variable {J : JsonLib} {s s' : Gateway} {server : WebSocketServer}

@[simp] theorem hostSender_bytes (rctx : ReducerContext) : (hostSender rctx).2 = rctx.senderIdentity := by
  unfold hostSender
  split
  · rename_i h
    rw [h]
  · rfl

theorem hostSender_eq_iff {rctx rctx' : ReducerContext} :
    hostSender rctx = hostSender rctx' ↔ rctx.senderIdentity = rctx'.senderIdentity := by
  constructor
  · intro h
    simpa using congrArg Prod.snd h
  · intro h
    rw [hostSender, hostSender, h]

/-- No message changes who is who. -/
theorem clientIds_message (J : JsonLib) (server : WebSocketServer) (socket : Nat) (text : Bytes) :
    (server.handleWebSocketMessage J socket text).clientIds = server.clientIds := by
  have hdoes := WebSocketServer.message_does J server socket text
  generalize server.subscriptionOf J socket text = named at hdoes
  generalize server.handleWebSocketMessage J socket text = after at hdoes ⊢
  cases hdoes <;> rfl

theorem clientId_of_find {socket : Nat} {id : Bytes} (h : server.clientIds.find? (fun p => p.1 = socket) = some (socket, id)) :
    server.clientId socket = id := by
  rw [WebSocketServer.clientId, h]
  rfl

/-- Calls that were made stay what they were while connections keep their channels. -/
theorem Inv.calls_mono (h : Inv s) {callers : List Caller}
    (hkeep : ∀ (k : Nat) (c : Caller), s.callers[k]? = some c → ∃ c', callers[k]? = some c' ∧ c'.channel = c.channel) :
    ∀ call ∈ s.calls, ∃ c, callers[call.caller]? = some c ∧ AsSent c.channel call := by
  intro call hcall
  obtain ⟨c, hc, hsent⟩ := h.calls call hcall
  obtain ⟨c', hc', hch⟩ := hkeep call.caller c hc
  exact ⟨c', hc', hch ▸ hsent⟩

theorem keep_append (s : Gateway) (c₀ : Caller) (k : Nat) (c : Caller) (hc : s.callers[k]? = some c) :
    ∃ c', (s.callers ++ [c₀])[k]? = some c' ∧ c'.channel = c.channel :=
  ⟨c, by rw [List.getElem?_append_left (List.getElem?_eq_some_iff.1 hc).1, hc], rfl⟩

theorem keep_set {i : Nat} {c₀ c₁ : Caller} (hi : s.callers[i]? = some c₀) (hch : c₁.channel = c₀.channel) (k : Nat) (c : Caller)
    (hc : s.callers[k]? = some c) : ∃ c', (s.callers.set i c₁)[k]? = some c' ∧ c'.channel = c.channel := by
  by_cases hik : i = k
  · subst hik
    rw [hi] at hc
    cases hc
    exact ⟨c₁, by rw [List.getElem?_set_self (List.getElem?_eq_some_iff.1 hi).1], hch⟩
  · exact ⟨c, by rw [List.getElem?_set_ne hik, hc], rfl⟩

/-- A connection that is set to gone is not among those that are there. -/
theorem there_of_set {i k socket : Nat} {c : Caller} {now : Int64} (hgone : c.gone = true)
    (hk : (s.callers.set i c)[k]? = some ⟨.websocket socket now, false⟩) :
    i ≠ k ∧ s.callers[k]? = some ⟨.websocket socket now, false⟩ := by
  rw [List.getElem?_set] at hk
  split at hk
  · split at hk
    · cases hk
      cases hgone
    · cases hk
  · rename_i hik
    exact ⟨hik, hk⟩

theorem there_of_append {k socket : Nat} {c : Caller} {now : Int64}
    (hk : (s.callers ++ [c])[k]? = some ⟨.websocket socket now, false⟩) :
    s.callers[k]? = some ⟨.websocket socket now, false⟩ ∨
      (k = s.callers.length ∧ c = ⟨.websocket socket now, false⟩) := by
  rw [List.getElem?_append] at hk
  split at hk
  · exact Or.inl hk
  · rename_i hge
    obtain ⟨hlt, hc⟩ := List.getElem?_eq_some_iff.1 hk
    simp only [List.length_singleton] at hlt
    exact Or.inr ⟨by omega, by simpa using hc⟩

theorem Inv.upgrade (h : Inv s) {socket : Nat} {now : Int64}
    (hserver : s.server.step J (.connected socket (Sockets.clientIdText socket now)) = some server) :
    Inv { s with server := server, callers := s.callers ++ [{ channel := .websocket socket now }] } := by
  simp only [WebSocketServer.step] at hserver
  split at hserver
  · cases hserver
  · rename_i hfree
    cases hserver
    have hnone : s.server.clientIds.find? (fun p => p.1 = socket) = none := by
      rw [List.find?_eq_none]
      intro p hp
      simp only [Bool.not_eq_true, List.any_eq_false] at hfree
      simpa using hfree p hp
    refine ⟨fun k sock now' hk => ?_, fun k l sock now₁ now₂ hk hl => ?_, h.calls_mono (keep_append s _)⟩
    · rw [List.find?_append]
      rcases there_of_append hk with hk | ⟨rfl, hc⟩
      · rw [h.registered k sock now' hk]
        rfl
      · cases hc
        rw [hnone]
        simp
    · rcases there_of_append hk with hk | ⟨rfl, hc⟩ <;> rcases there_of_append hl with hl | ⟨rfl, hc'⟩
      · exact h.sockets k l sock now₁ now₂ hk hl
      · cases hc'
        rw [h.registered k socket now₁ hk] at hnone
        cases hnone
      · cases hc
        rw [h.registered l socket now₂ hl] at hnone
        cases hnone
      · rfl

theorem Inv.channel (h : Inv s) : Inv { s with callers := s.callers ++ [{ channel := .grpc }] } := by
  refine ⟨fun k sock now hk => ?_, fun k l sock now₁ now₂ hk hl => ?_, h.calls_mono (keep_append s _)⟩
  · rcases there_of_append hk with hk | ⟨-, hc⟩
    · exact h.registered k sock now hk
    · cases hc
  · rcases there_of_append hk with hk | ⟨-, hc⟩
    · rcases there_of_append hl with hl | ⟨-, hc⟩
      · exact h.sockets k l sock now₁ now₂ hk hl
      · cases hc
    · cases hc

theorem Inv.call (h : Inv s) (call : ReducerCall) {c : Caller} (hc : s.callers[call.caller]? = some c)
    (hsent : AsSent c.channel call) : Inv { s with calls := s.calls ++ [call] } := by
  refine ⟨h.registered, h.sockets, fun d hd => ?_⟩
  rcases List.mem_append.1 hd with hd | hd
  · exact h.calls d hd
  · rw [List.mem_singleton.1 hd]
    exact ⟨c, hc, hsent⟩

theorem Inv.of_clientIds (h : Inv s) (hids : server.clientIds = s.server.clientIds) : Inv { s with server := server } :=
  ⟨fun k sock now hk => by rw [hids]; exact h.registered k sock now hk, h.sockets, h.calls⟩

theorem Inv.message (h : Inv s) {i socket : Nat} {now₀ now : Int64} (hi : s.callers[i]? = some ⟨.websocket socket now₀, false⟩)
    (text moduleName : Bytes) :
    Inv { s with calls := s.calls ++
      [{ caller := i, sent := .message text, rctx := websocketContext s.server socket moduleName now }] } :=
  h.call { caller := i, sent := .message text, rctx := websocketContext s.server socket moduleName now } hi
    (clientId_of_find (h.registered i socket now₀ hi))

theorem Inv.disconnect (h : Inv s) {i socket : Nat} {now : Int64} (hi : s.callers[i]? = some ⟨.websocket socket now, false⟩)
    (hserver : s.server.step J (.disconnected socket) = some server) :
    Inv { s with server := server, callers := s.callers.set i ⟨.websocket socket now, true⟩ } := by
  have hids : server.clientIds = s.server.clientIds.filter fun p => p.1 ≠ socket := by
    simp only [WebSocketServer.step] at hserver
    split at hserver <;> cases hserver <;> rfl
  refine ⟨fun k sock now' hk => ?_, fun k l sock now₁ now₂ hk hl => ?_, h.calls_mono (keep_set hi rfl)⟩
  · obtain ⟨hik, hk⟩ := there_of_set rfl hk
    have hne : sock ≠ socket := by
      intro he
      rw [he] at hk
      exact hik (h.sockets i k socket now now' hi hk)
    rw [hids, List.find?_filter, ← h.registered k sock now' hk]
    congr 1
    funext p
    by_cases hp : p.1 = sock
    · simp [hp, hne]
    · simp [hp]
  · exact h.sockets k l sock now₁ now₂ (there_of_set rfl hk).2 (there_of_set rfl hl).2

theorem Inv.step {l : Label} (h : Inv s) (hstep : Gateway.step J s l = some s') : Inv s' := by
  cases l with
  | upgrade socket now =>
    obtain ⟨server, hserver, rfl⟩ := Option.map_eq_some_iff.1 hstep
    exact h.upgrade hserver
  | channel =>
    cases hstep
    exact h.channel
  | message i text now =>
    simp only [Gateway.step] at hstep
    split at hstep
    · rename_i socket now₀ hi
      obtain ⟨server, hserver, rfl⟩ := Option.map_eq_some_iff.1 hstep
      cases hserver
      cases calledReducer J text with
      | none =>
        simp only [Option.map_none, Option.toList_none, List.append_nil]
        exact h.of_clientIds (clientIds_message J s.server socket text)
      | some called => exact (h.message hi text called.moduleName).of_clientIds (clientIds_message J s.server socket text)
    · cases hstep
  | execute i request now =>
    simp only [Gateway.step] at hstep
    split at hstep
    · rename_i hi
      cases hstep
      exact h.call { caller := i, sent := .request request, rctx := grpcContext request now } hi rfl
    · cases hstep
  | disconnect i =>
    simp only [Gateway.step] at hstep
    split at hstep
    · rename_i socket now hi
      obtain ⟨server, hserver, rfl⟩ := Option.map_eq_some_iff.1 hstep
      exact h.disconnect hi hserver
    · rename_i hi
      cases hstep
      exact ⟨fun k sock now hk => h.registered k sock now (there_of_set rfl hk).2,
        fun k l sock now₁ now₂ hk hl => h.sockets k l sock now₁ now₂ (there_of_set rfl hk).2 (there_of_set rfl hl).2,
        h.calls_mono (keep_set hi rfl)⟩
    · cases hstep

theorem clientIdText_ne_nil (socket : Nat) (now : Int64) : Sockets.clientIdText socket now ≠ [] := by
  simp [Sockets.clientIdText, show str "client_" ≠ [] by decide]

/-- Calls of two connections. -/
theorem otherSender_iff {c c' : Channel} {a b : ReducerCall} (ha : AsSent c a) (hb : AsSent c' b) :
    (a.rctx.senderIdentity ≠ [] → a.rctx.senderIdentity ≠ b.rctx.senderIdentity) ↔ OtherSender (c, a.sent) (c', b.sent) := by
  obtain ⟨i, sent, rctx⟩ := a
  obtain ⟨j, sent', rctx'⟩ := b
  cases c <;> cases sent <;> first | exact ha.elim | skip
  case websocket.message socket now text =>
    have ha : rctx.senderIdentity = Sockets.clientIdText socket now := ha
    cases c' <;> cases sent' <;> first | exact hb.elim | skip
    case websocket.message socket' now' text' =>
      have hb : rctx'.senderIdentity = Sockets.clientIdText socket' now' := hb
      simp only [OtherSender, ha, hb]
      exact ⟨fun h => h (clientIdText_ne_nil socket now), fun h _ => h⟩
    case grpc.request r =>
      have hb : rctx'.senderIdentity = r.senderIdentity := hb
      simp only [OtherSender, ha, hb]
      exact ⟨fun h he => h (clientIdText_ne_nil socket now) he.symm, fun h _ he => h he.symm⟩
  case grpc.request r =>
    have ha : rctx.senderIdentity = r.senderIdentity := ha
    cases c' <;> cases sent' <;> first | exact hb.elim | skip
    case websocket.message socket' now' text' =>
      have hb : rctx'.senderIdentity = Sockets.clientIdText socket' now' := hb
      simp only [OtherSender, ha, hb]
      refine ⟨fun h he => ?_, fun h _ => h⟩
      exact h (by rw [he]; exact clientIdText_ne_nil socket' now') he
    case grpc.request r' =>
      have hb : rctx'.senderIdentity = r'.senderIdentity := hb
      simp only [OtherSender, ha, hb]
      rw [imp_iff_not_or, not_not]

/-- Calls of one connection. -/
theorem sameSender_iff {c : Channel} {a b : ReducerCall} (ha : AsSent c a) (hb : AsSent c b) :
    a.rctx.senderIdentity = b.rctx.senderIdentity ↔ SameSender a.sent b.sent := by
  obtain ⟨i, sent, rctx⟩ := a
  obtain ⟨j, sent', rctx'⟩ := b
  cases c <;> cases sent <;> first | exact ha.elim | skip
  case websocket.message socket now text =>
    cases sent' with
    | request r => exact hb.elim
    | message text' => exact iff_of_true (Eq.trans ha (Eq.symm hb)) trivial
  case grpc.request r =>
    cases sent' with
    | message text => exact hb.elim
    | request r' =>
      have ha : rctx.senderIdentity = r.senderIdentity := ha
      have hb : rctx'.senderIdentity = r'.senderIdentity := hb
      simp only [SameSender, ha, hb]

end

/-- **The identity is the connection's exactly when** no request over gRPC names a sender: the same field again on one
connection, on two neither the field of the other's request nor a websocket client's id. -/
theorem sender_bound_iff (J : JsonLib) (ls : List Label) (s : Gateway) (hrun : run (step J) {} ls = some s)
    (a b : ReducerCall) (ha : a ∈ s.calls) (hb : b ∈ s.calls) : Bound a b ↔ s.Honest a b := by
  have hall : Allowed (step J) (fun _ _ => True) {} ls := .of_forall fun _ _ _ => trivial
  have hinv : Inv s := run_invariant Inv (fun _ _ _ h _ hs => h.step hs) Inv.boot hall hrun
  obtain ⟨c, hc, hsent⟩ := hinv.calls a ha
  obtain ⟨c', hc', hsent'⟩ := hinv.calls b hb
  rw [Bound, Honest]
  by_cases hab : a.caller = b.caller
  · rw [hab, hc'] at hc
    cases hc
    rw [if_pos hab, if_pos hab, hostSender_eq_iff]
    exact sameSender_iff hsent hsent'
  · rw [if_neg hab, if_neg hab, hostSender_bytes, ne_eq (hostSender _), hostSender_eq_iff]
    have hca : s.channelOf a.caller = c.channel := by rw [channelOf, hc]; rfl
    have hcb : s.channelOf b.caller = c'.channel := by rw [channelOf, hc']; rfl
    rw [hca, hcb]
    exact otherSender_iff hsent hsent'

def callInc : Bytes := str "\x7b\"module\":\"m\",\"reducer\":\"inc\",\"type\":\"call_reducer\"\x7d"

def callEnv : JsonLib :=
  .ofTable [(.object [(str "module", .string (str "m")), (str "reducer", .string (str "inc")),
    (str "type", .string (str "call_reducer"))], callInc)] (by decide)

def executeAs (sender : Bytes) : ExecuteReducerRequest :=
  { moduleName := str "m", reducerName := str "inc", senderIdentity := sender }

def contextOf (sender : Bytes) (now : Int64) : ReducerContext :=
  { senderIdentity := sender, connectionId := sender, moduleIdentity := str "m", timestampMicros := now }

/-- A websocket client and a gRPC client that names no sender. -/
def apart : List Label := [.upgrade 7 1, .channel, .message 0 callInc 2, .execute 1 (executeAs []) 3]

theorem sender_bound_apart : ∃ s a b, run (step callEnv) {} apart = some s ∧ s.calls = [a, b] ∧ Bound a b ∧
    hostSender a.rctx = (10, str "client_7_1") := by
  let a : ReducerCall := { caller := 0, sent := .message callInc, rctx := contextOf (str "client_7_1") 2 }
  let b : ReducerCall := { caller := 1, sent := .request (executeAs []), rctx := contextOf [] 3 }
  have hfacts : (run (step callEnv) {} apart).map (fun s => (s.calls, s.channelOf 0, s.channelOf 1)) =
      some ([a, b], .websocket 7 1, .grpc) := by
    decide
  obtain ⟨s, hrun, hs⟩ := Option.map_eq_some_iff.1 hfacts
  simp only [Prod.mk.injEq] at hs
  obtain ⟨hcalls, hfirst, hsecond⟩ := hs
  have honest : s.Honest a b := by
    rw [Honest, if_neg (by decide), hfirst, hsecond]
    exact (clientIdText_ne_nil 7 1).symm
  exact ⟨s, a, b, hrun, hcalls, (sender_bound_iff callEnv apart s hrun a b (by simp [hcalls]) (by simp [hcalls])).2 honest,
    by decide⟩

/-- One gRPC client is first one caller, then another. -/
def renamed : List Label := [.channel, .execute 0 (executeAs (str "alice")) 1, .execute 0 (executeAs (str "bob")) 2]

theorem sender_chosen : ∃ s a b, run (step callEnv) {} renamed = some s ∧ s.calls = [a, b] ∧ a.caller = b.caller ∧ ¬ Bound a b ∧
    hostSender a.rctx = (5, str "alice") ∧ hostSender b.rctx = (3, str "bob") := by
  let a : ReducerCall :=
    { caller := 0, sent := .request (executeAs (str "alice")), rctx := { contextOf (str "alice") 1 with connectionId := [] } }
  let b : ReducerCall :=
    { caller := 0, sent := .request (executeAs (str "bob")), rctx := { contextOf (str "bob") 2 with connectionId := [] } }
  have hfacts : (run (step callEnv) {} renamed).map calls = some [a, b] := by decide
  obtain ⟨s, hrun, hs⟩ := Option.map_eq_some_iff.1 hfacts
  refine ⟨s, a, b, hrun, hs, rfl, fun h => ?_, by decide, by decide⟩
  have hsame : hostSender a.rctx = hostSender b.rctx := h
  exact absurd (hostSender_eq_iff.1 hsame) (by decide)

end Gateway

end OriginDB
