import OriginDB.Websocket.Reports
import OriginDB.Websocket.Routing
import OriginDB.Websocket.ServerEffect
/-!
# The thread of a connection (`websocket_server.cpp:174-319`)

`HandleClient` shakes hands, registers the connection, reads until it is closed, and cleans up. It has no handler of
its own: an exception that leaves the welcome, the slicing of a frame, a message or a hook of the WASM manager leaves
the thread, and with it the process. So does a message that is too much for the stack of the thread, which no `catch` sees: how deep
`std::regex` recurses on a query depends on the library, and how far down the stack goes on the system, so what the stack holds is a
parameter (`stackHolds`). With libstdc++ and 8 MiB a query of some ten thousand bytes is enough.

| here | there |
| --- | --- |
| `dispatch` | the call of `HandleWebSocketMessage` (`:265`) |
| `round`   | one round of the inner loop (`:250-271`) |
| `drain`   | the inner loop; each round takes at least a byte, so the bytes there are bound it |
| `receive` | the outer loop (`:241-278`), one event for each `recv`; the last `recv` fails |
| `leave`   | the clean-up (`:280-310`) |

Between two `recv` the threads of other connections may take steps of theirs.
-/
namespace OriginDB

open JsonDoc ByteCodec Throwing Machine Regex

/-- What happens while the thread waits in `recv`, or what it gets. -/
inductive ConnectionEvent where
  | bytes (b : Bytes)
  | others (l : WebSocketServer.Label)

def WebSocketServer.Label.socket : WebSocketServer.Label → Nat
  | .connected socket _ | .message socket _ | .disconnected socket => socket

namespace AuthManager

/-- `Check` for a client (auth.cpp:110). -/
def check (auth : AuthManager) (token : Bytes) : Bool :=
  token ≠ [] && (token = auth.adminToken || token = auth.clientToken)

theorem check_eq (auth : AuthManager) (token : Bytes) : auth.check token = auth.checkScope token .client := by
  rw [Bool.eq_iff_iff, checkScope_iff]
  simp [check]

/-- `StripBearer` (auth.cpp:118). -/
def stripBearer (headerValue : Bytes) : Bytes :=
  if (str "Bearer ").isPrefixOf headerValue then headerValue.drop 7 else headerValue

end AuthManager

namespace HandleClient

open Pattern

/-! ## The handshake -/

def authPattern : Pattern := all [litI (str "authorization:"), .many true isSpace, .group 1 (plus true isDot)]

def tokenPattern : Pattern :=
  all [.char fun c => c = 63 || c = 38, lit (str "token="), .group 1 (plus true fun c => c ≠ 38 && !isSpace c)]

/-- `ExtractRequestToken` (websocket_server.cpp:321). -/
def extractRequestToken (request : Bytes) : Bytes :=
  match search authPattern request with
  | some m => AuthManager.stripBearer (m.str 1 request)
  | none =>
    match search tokenPattern request with
    | some m => m.str 1 request
    | none => []

section
variable (host : Host) (socket : Nat)

def refused (request : Bytes) : Bool := host.auth.any fun auth => !auth.check (extractRequestToken request)

def welcome (clientId : Bytes) : Json :=
  .object [(str "client_id", .string clientId),
    (str "features", .array [.string (str "changefeed"), .string (str "wasm_subscriptions")]),
    (str "message", .string (str "Connected to OriginDB changefeed")), (str "server_version", .string (str "0.1.0")),
    (str "type", .string (str "welcome"))]

/-! ## Reading -/

/-- The stack that gives way ends the process, as an exception does that leaves the thread. -/
def dispatch (message : Bytes) : Handler Unit := do
  let t ← get
  if host.stackHolds t.handled message then ClientThread.handleWebSocketMessage host socket message
  else throw (str "stack overflow")

inductive Round where
  | incomplete
  | closed (rest : Bytes)
  | handled (rest : Bytes)

def round (pending : Bytes) : Handler Round :=
  let size := WebSocketFrame.completeFrameSize pending
  if size = 0 ∨ pending.length < size.toNat then pure .incomplete
  else
    let frame := pending.take size.toNat
    let rest := pending.drop size.toNat
    if WebSocketFrame.opcode frame = 8 then pure (.closed rest)
    else
      match WebSocketFrame.parseWebSocketFrame frame with
      | .error e => throw e
      | .ok message => do
        if message ≠ [] then dispatch host socket message
        pure (.handled rest)

/-- What is left of the bytes, and whether a close frame was among them. -/
def drain : Nat → Bytes → Handler (Bytes × Bool)
  | 0, pending => pure (pending, false)
  | fuel + 1, pending => do
    match ← round host socket pending with
    | .incomplete => pure (pending, false)
    | .closed rest => pure (rest, true)
    | .handled rest => drain fuel rest

/-- A step of another connection. It is taken with all managers there; nobody looks at one that is missing. -/
def others (t : ClientThread) (l : WebSocketServer.Label) : ClientThread :=
  if l.socket = socket then t else { t with server := (t.server.step host.lib l).getD t.server }

def receive : Bytes → List ConnectionEvent → Handler Unit
  | _, [] => pure ()
  | pending, .others l :: events => do
    modify fun t => others host socket t l
    receive pending events
  | pending, .bytes b :: events =>
    -- nothing: the other side is gone
    if b = [] then pure ()
    else do
      let (rest, closed) ← drain host socket (pending ++ b).length (pending ++ b)
      if closed = true ∨ 16 * 1024 * 1024 < rest.length then pure () else receive rest events

/-! ## Coming and going -/

/-- `active_clients_.push_back`, `client_ids_[client_socket] = client_id`. -/
def register (clientId : Bytes) (t : ClientThread) : ClientThread :=
  { t with
    activeClients := t.activeClients ++ [socket]
    server := { t.server with clientIds := t.server.clientIds.filter (fun p => p.1 ≠ socket) ++ [(socket, clientId)] } }

def erase (t : ClientThread) : ClientThread :=
  { t with
    activeClients := t.activeClients.filter fun s => s ≠ socket
    server := { t.server with clientIds := t.server.clientIds.filter fun p => p.1 ≠ socket } }

/-- What a hook throws, if the manager is there. -/
def runHook (hook : WasmHooks → Except Bytes Unit) : Handler Unit :=
  match host.wasmManager with
  | none => pure ()
  | some hooks =>
    match hook hooks with
    | .error e => throw e
    | .ok _ => pure ()

def leave : Handler Unit := do
  let t ← get
  let clientId := t.server.clientId socket
  modify (erase socket)
  if host.wasmManager.isSome ∧ clientId ≠ [] then
    modify fun t => { t with server := { t.server with wasmManager := t.server.wasmManager.onClientDisconnected clientId } }
    runHook host WasmHooks.disconnected
  if host.sqlManager ∧ clientId ≠ [] then
    modify fun t => { t with server := { t.server with sqlManager := t.server.sqlManager.unsubscribeAll clientId } }

def serve (clientId : Bytes) (events : List ConnectionEvent) : Handler Unit := do
  modify (register socket clientId)
  runHook host WasmHooks.connected
  ClientThread.sendJson host (welcome clientId)
  receive host socket [] events
  leave host socket

end

/-! ## What the thread survives -/

section
variable (host : Host) (socket : Nat)

/-- The round does not throw: the frame is not one whose length wraps around, the stack holds its message, and of the sends that is
answered with one succeeds. -/
def Survives (t : ClientThread) (pending : Bytes) : Prop :=
  let size := WebSocketFrame.completeFrameSize pending
  let frame := pending.take size.toNat
  size ≠ 0 → size.toNat ≤ pending.length → WebSocketFrame.opcode frame ≠ 8 →
    WebSocketFrame.wraps pending = false ∧
    ∀ message, WebSocketFrame.parseWebSocketFrame frame = .ok message → message ≠ [] →
      host.stackHolds t.handled message = true ∧ ¬ (ClientThread.triesOf host t socket message).lost host.delivers t.attempts

/-- What every round of the inner loop starts with. -/
def drainRounds : Nat → Bytes → ClientThread → List (ClientThread × Bytes)
  | 0, _, _ => []
  | fuel + 1, pending, t =>
    (t, pending) :: match exec (round host socket pending) t with
      | (.ok (.handled rest), t') => drainRounds fuel rest t'
      | _ => []

/-- And every round of the whole connection. -/
def rounds : Bytes → List ConnectionEvent → ClientThread → List (ClientThread × Bytes)
  | _, [], _ => []
  | pending, .others l :: events, t => rounds pending events (others host socket t l)
  | pending, .bytes b :: events, t =>
    if b = [] then []
    else drainRounds host socket (pending ++ b).length (pending ++ b) t ++
      match exec (drain host socket (pending ++ b).length (pending ++ b)) t with
      | (.ok (rest, closed), t') => if closed = true ∨ 16 * 1024 * 1024 < rest.length then [] else rounds rest events t'
      | _ => []

end

/-- What stays: the connections, the thread's own id, and that every subscription is on its client's list. -/
structure Kept (socket : Nat) (t t' : ClientThread) : Prop where
  active : t'.activeClients = t.activeClients
  clientId : t'.server.clientId socket = t.server.clientId socket
  listed : t.server.sqlManager.Listed → t'.server.sqlManager.Listed

end HandleClient

namespace WebSocketServer

section
variable {J : JsonLib} {s s' : WebSocketServer} {l : Label} {socket : Nat}

theorem listed_does {c : Bytes} {a : Option (Manager × Bytes)} (h : Does s c a s') (hlisted : s.sqlManager.Listed) :
    s'.sqlManager.Listed := by
  cases h with
  | nothing n => exact hlisted
  | removes id => exact hlisted.unsubscribe id
  | makes n sub _ => exact SqlSubscriptionManager.Listed.store (m := { s.sqlManager with nextSubscriptionId := n }) hlisted sub
  | makesQuery query _ => exact hlisted

theorem listed_message (hlisted : s.sqlManager.Listed) (message : Bytes) :
    (s.handleWebSocketMessage J socket message).sqlManager.Listed :=
  listed_does (message_does J s socket message) hlisted

theorem listed_step (hlisted : s.sqlManager.Listed) (hstep : s.step J l = some s') : s'.sqlManager.Listed := by
  cases l with
  | connected socket clientId =>
    simp only [step] at hstep
    split at hstep
    · cases hstep
    · cases hstep
      exact hlisted
  | message socket message =>
    cases hstep
    exact listed_message hlisted message
  | disconnected socket =>
    simp only [step] at hstep
    split at hstep
    · cases hstep
      exact hlisted
    · cases hstep
      exact hlisted.unsubscribeAll _

/-- Other connections keep their hands off an id. -/
theorem clientId_step (hl : l.socket ≠ socket) (hstep : s.step J l = some s') : s'.clientId socket = s.clientId socket := by
  cases l with
  | connected other id =>
    have hl : other ≠ socket := hl
    simp only [step] at hstep
    split at hstep
    · cases hstep
    · cases hstep
      simp [clientId, hl]
  | message other message =>
    cases hstep
    unfold clientId
    rw [Gateway.clientIds_message]
  | disconnected other =>
    have hgone : ({ s with clientIds := s.clientIds.filter fun p => p.1 ≠ other } : WebSocketServer).clientId socket =
        s.clientId socket := by
      have hp (p : Nat × Bytes) : (p.1 ≠ other ∧ p.1 = socket) ↔ p.1 = socket := by
        have hl : other ≠ socket := hl
        grind
      simp [clientId, List.find?_filter, hp]
    simp only [step] at hstep
    split at hstep
    · cases hstep
      exact hgone
    · cases hstep
      exact hgone

end

end WebSocketServer

namespace HandleClient

section
variable {host : Host} {socket : Nat} {t t' : ClientThread} {pending : Bytes}

theorem Kept.refl (t : ClientThread) : Kept socket t t := ⟨rfl, rfl, id⟩

theorem Kept.trans {t'' : ClientThread} (h : Kept socket t t') (h' : Kept socket t' t'') : Kept socket t t'' :=
  ⟨h'.active.trans h.active, h'.clientId.trans h.clientId, fun hl => h'.listed (h.listed hl)⟩

/-! ## A round -/

theorem kept_message (message : Bytes) : Keeps (Kept socket) (ClientThread.handleWebSocketMessage host socket message) := by
  intro t
  obtain ⟨server, ⟨hserver, hactive, -⟩, heq⟩ := ClientThread.leaves_handleWebSocketMessage host socket message t
  rcases heq with rfl | ⟨-, rfl⟩
  · refine ⟨hactive, ?_, ?_⟩
    · rw [hserver, WebSocketServer.clientId, Gateway.clientIds_message]
      rfl
    · rw [hserver]
      exact fun h => WebSocketServer.listed_message h message
  · refine ⟨hactive, ?_, ?_⟩ <;> rw [hserver]
    exact id

theorem kept_dispatch (message : Bytes) : Keeps (Kept socket) (dispatch host socket message) := by
  refine Keeps.bind (R := Kept socket) (fun _ _ _ => Kept.trans) (fun t => Kept.refl t) fun t => ?_
  split
  · exact kept_message message
  · exact keeps_throw Kept.refl _

theorem throws_dispatch (hs : host.Sound) (hclient : Utf8 (t.server.clientId socket)) (message : Bytes) :
    throws (dispatch host socket message) t ↔
      ¬ (host.stackHolds t.handled message = true ∧ ¬ (ClientThread.triesOf host t socket message).lost host.delivers t.attempts) := by
  have hmessage := (ClientThread.tells_handleWebSocketMessage hs hclient message).throws_iff
  rw [dispatch, throws_bind_ok (exec_get t)]
  by_cases hstack : host.stackHolds t.handled message = true
  · rw [if_pos hstack, hmessage]
    simp [hstack]
  · rw [if_neg hstack]
    simp [throws, hstack]

theorem kept_round (host : Host) (socket : Nat) (pending : Bytes) : Keeps (Kept socket) (round host socket pending) := by
  have hpure {α : Type} (a : α) : Keeps (Kept socket) (pure a : Handler α) := keeps_pure Kept.refl a
  unfold round
  simp only
  split
  · exact hpure _
  · split
    · exact hpure _
    · cases WebSocketFrame.parseWebSocketFrame (pending.take (WebSocketFrame.completeFrameSize pending).toNat) with
      | error e => exact keeps_throw Kept.refl e
      | ok message =>
        simp only
        split
        · exact Keeps.bind (R := Kept socket) (fun _ _ _ => Kept.trans) (kept_dispatch message) fun _ => hpure _
        · exact hpure _

theorem kept_drain (host : Host) (socket : Nat) (fuel : Nat) (pending : Bytes) : Keeps (Kept socket) (drain host socket fuel pending) := by
  induction fuel generalizing pending with
  | zero => exact keeps_pure Kept.refl _
  | succ fuel ih =>
    unfold drain
    refine Keeps.bind (R := Kept socket) (fun _ _ _ => Kept.trans) (kept_round host socket pending) fun r => ?_
    cases r with
    | incomplete => exact keeps_pure Kept.refl _
    | closed rest => exact keeps_pure Kept.refl _
    | handled rest => exact ih rest

/-- A frame is at least a byte. -/
theorem rest_lt {rest : Bytes} (h : exec (round host socket pending) t = (.ok (.handled rest), t')) :
    rest.length < pending.length := by
  unfold round at h
  simp only at h
  split at h
  · cases (Prod.mk.inj h).1
  · rename_i hthere
    obtain ⟨hsize, hle⟩ := not_or.1 hthere
    have hpos : (WebSocketFrame.completeFrameSize pending).toNat ≠ 0 := fun h0 => hsize (UInt64.toNat_inj.1 h0)
    have hdrop : rest = pending.drop (WebSocketFrame.completeFrameSize pending).toNat := by
      split at h
      · cases (Prod.mk.inj h).1
      · split at h
        · cases (Prod.mk.inj h).1
        · rename_i message _
          split at h
          · rw [exec_bind] at h
            split at h
            · cases (Prod.mk.inj h).1
              rfl
            · cases (Prod.mk.inj h).1
          · cases (Prod.mk.inj h).1
            rfl
    rw [hdrop, List.length_drop]
    omega

/-- The bytes there are bound the rounds: more of them would find nothing. -/
theorem exec_drain_succ (fuel : Nat) (hfuel : pending.length ≤ fuel) :
    exec (drain host socket (fuel + 1) pending) t = exec (drain host socket fuel pending) t := by
  induction fuel generalizing pending t with
  | zero =>
    have hnil : pending = [] := List.length_eq_zero_iff.1 (by omega)
    subst hnil
    rfl
  | succ fuel ih =>
    rw [drain, drain, exec_bind, exec_bind]
    rcases hround : exec (round host socket pending) t with ⟨e | r, t'⟩
    · rfl
    · cases r with
      | incomplete => rfl
      | closed rest => rfl
      | handled rest =>
        have := rest_lt hround
        exact ih (by omega)

theorem kept_others (l : WebSocketServer.Label) : Kept socket t (others host socket t l) := by
  unfold others
  by_cases hl : l.socket = socket
  · rw [if_pos hl]
    exact Kept.refl t
  · rw [if_neg hl]
    cases hstep : t.server.step host.lib l with
    | none => exact Kept.refl t
    | some server => exact ⟨rfl, WebSocketServer.clientId_step hl hstep, fun h => WebSocketServer.listed_step h hstep⟩

end

/-! ## Two connections -/

def welcomeText : Bytes :=
  str "\x7b\"client_id\":\"client_7_1\",\"features\":[\"changefeed\",\"wasm_subscriptions\"]," ++
    str "\"message\":\"Connected to OriginDB changefeed\",\"server_version\":\"0.1.0\",\"type\":\"welcome\"\x7d"

def welcomeDocs : List (Json × Bytes) := [(welcome (str "client_7_1"), welcomeText)]

theorem utf8_welcomeText : Utf8 welcomeText := (utf8_str _).append (utf8_str _)

theorem welcomeDocs_texts : ∀ d ∈ welcomeDocs,
    d.2 ≠ [] ∧ d.2.head? ≠ some 35 ∧ parseTable welcomeDocs d.2 = some d.1.reparsed := by
  decide +kernel

theorem welcomeDocs_utf8 : (JsonLib.extended welcomeDocs welcomeDocs_texts).Utf8Only :=
  JsonLib.utf8Only_extended welcomeDocs_texts (by simpa [welcomeDocs] using utf8_welcomeText)

/-- Every send succeeds. -/
noncomputable def openHost : Host where
  lib := (JsonLib.extended welcomeDocs welcomeDocs_texts).checked welcomeDocs_utf8
  parseError _ := str "[json.exception.parse_error.101] parse error"
  typeError _ := str "[json.exception.type_error.302] type must be string, but is number"
  dumpError _ := str "[json.exception.type_error.316] invalid UTF-8 byte at index 0: 0xFF"

theorem sound_openHost : openHost.Sound :=
  ⟨JsonLib.utf8Only_checked welcomeDocs_utf8, fun text j hj => JsonLib.parse_checked welcomeDocs_utf8 text j hj,
    fun _ => utf8_str _, fun _ => utf8_str _⟩

def closeFrame : Bytes := [0x88, 0x80, 1, 2, 3, 4]

/-- A masked text frame whose length is 2⁶⁴ - 1, with a header of 14 bytes. -/
def wrappedFrame : Bytes := [0x81, 0xff, 0xff, 0xff, 0xff, 0xff, 0xff, 0xff, 0xff, 0xff, 1, 2, 3, 4]

end HandleClient

end OriginDB
