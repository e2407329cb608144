import OriginDB.Lib.Json
import OriginDB.Lib.Machine
import OriginDB.Lib.Numbers
/-!
# Whose socket a frame goes to (`websocket_server.cpp:151-318, 702-762, 806-856`)

A sender looks the client up in `client_ids_`, lets go of `clients_mutex_` and writes to the descriptor it
found. Meanwhile the connection's own thread may take the client out of the map and close the descriptor, and
the kernel may hand its number to the next connection.

| here | there |
| --- | --- |
| `accept socket`      | `accept` (`:159`); the kernel gives a number that is not open |
| `refuse i`           | `HandleClient` without a handshake: `close` (`:317`), `return` |
| `register i now`     | `client_ids_[client_socket] = client_id` (`:212-221`) |
| `subscribe i m`      | a subscription made for the client of the socket |
| `unsubscribe j`      | `Unsubscribe` |
| `erase i`            | `client_ids_.erase` (`:285-292`) |
| `disconnected i`     | `OnClientDisconnected` (`:303`) |
| `unsubscribeAll i`   | `UnsubscribeAll` (`:308`) |
| `close i`            | `close` (`:317`) |
| `event matched`      | `ProcessEvent`, or one event of the WASM manager: what is to be sent to whom |
| `find k`             | the search in `client_ids_` under the lock |
| `send k`             | `SendWebSocketFrame` |

Connections are numbered as they are accepted. `owner` and `written` are history: which connection a
subscription belongs to, and which one a frame was written to.
-/
namespace OriginDB

open JsonDoc ByteCodec Machine

/-- Where the thread of a connection is in `HandleClient`. -/
inductive ConnectionPhase where
  | accepted
  | connected
  /-- no longer in `client_ids_` -/
  | leaving
  /-- its WASM subscriptions are gone -/
  | disconnected
  /-- and its SQL subscriptions -/
  | unsubscribed
  | closed
deriving DecidableEq

structure Connection where
  socket : Nat
  clientId : Bytes := []
  phase : ConnectionPhase := .accepted
deriving DecidableEq

inductive Manager where
  | sql
  | wasm
deriving DecidableEq

/-- A subscription of either manager. -/
structure Subscribed where
  owner : Nat
  clientId : Bytes
  manager : Manager
deriving DecidableEq

/-- A frame and the client it is for. -/
structure Addressed where
  owner : Nat
  clientId : Bytes
  message : Bytes
deriving DecidableEq

/-- `OnChangefeedEvent` or `OnWasmSubscriptionEvent` on its way: what is left to do, and the descriptor found for
the frame in hand. -/
structure Sender where
  todo : List Addressed
  found : Option (Nat × Addressed) := none
deriving DecidableEq

structure Written where
  connection : Nat
  frame : Addressed
deriving DecidableEq

structure Sockets where
  connections : List Connection := []
  /-- `client_ids_` -/
  clientIds : List (Nat × Bytes) := []
  subscriptions : List Subscribed := []
  senders : List Sender := []
  written : List Written := []
deriving DecidableEq

namespace Sockets

/-- `"client_" + socket + "_" + now` (websocket_server.cpp:212). -/
def clientIdText (socket : Nat) (now : Int64) : Bytes :=
  str "client_" ++ Numbers.intText socket ++ str "_" ++ Numbers.intText now.toInt

inductive Label where
  | accept (socket : Nat)
  | refuse (i : Nat)
  | register (i : Nat) (now : Int64)
  | subscribe (i : Nat) (manager : Manager)
  | unsubscribe (j : Nat)
  | erase (i : Nat)
  | disconnected (i : Nat)
  | unsubscribeAll (i : Nat)
  | close (i : Nat)
  | event (matched : List (Nat × Bytes))
  | find (k : Nat)
  | send (k : Nat)

/-- The connection that has a descriptor open. -/
def holder (s : Sockets) (socket : Nat) : Option Nat :=
  s.connections.findIdx? fun c => c.socket = socket ∧ c.phase ≠ .closed

/-- The thread of a connection that is in one phase goes to another. -/
def advance (s : Sockets) (i : Nat) (phase phase' : ConnectionPhase) : Option (Connection × Sockets) :=
  match s.connections[i]? with
  | some c =>
    if c.phase = phase then some (c, { s with connections := s.connections.set i { c with phase := phase' } }) else none
  | none => none

/-- `OnClientDisconnected` and `UnsubscribeAll`. -/
def dropSubscriptions (s : Sockets) (clientId : Bytes) (manager : Manager) : Sockets :=
  { s with subscriptions := s.subscriptions.filter fun sub => ¬ (sub.clientId = clientId ∧ sub.manager = manager) }

/-- What is sent for the subscriptions an event matches. -/
def addressed (s : Sockets) (matched : List (Nat × Bytes)) : List Addressed :=
  matched.filterMap fun (j, message) => s.subscriptions[j]?.map fun sub => ⟨sub.owner, sub.clientId, message⟩

/-- The search for the client's socket (websocket_server.cpp:711-721, 809-819). -/
def target (s : Sockets) (a : Addressed) : Option (Nat × Addressed) :=
  (s.clientIds.find? fun p => p.2 = a.clientId).map fun p => (p.1, a)

def step (s : Sockets) : Label → Option Sockets
  | .accept socket =>
    if s.holder socket = none then some { s with connections := s.connections ++ [{ socket := socket }] } else none
  | .refuse i => (s.advance i .accepted .closed).map Prod.snd
  | .register i now =>
    match s.connections[i]? with
    | some c =>
      if c.phase = .accepted then
        let id := clientIdText c.socket now
        some { s with
          connections := s.connections.set i { c with phase := .connected, clientId := id }
          clientIds := (s.clientIds.filter fun p => p.1 ≠ c.socket) ++ [(c.socket, id)] }
      else none
    | none => none
  | .subscribe i manager =>
    match s.connections[i]? with
    | some c =>
      if c.phase = .connected then
        match s.clientIds.find? fun p => p.1 = c.socket with
        | some p => some { s with subscriptions := s.subscriptions ++ [⟨i, p.2, manager⟩] }
        | none => some s
      else none
    | none => none
  | .unsubscribe j => some { s with subscriptions := s.subscriptions.eraseIdx j }
  | .erase i => (s.advance i .connected .leaving).map fun (c, s) =>
      { s with clientIds := s.clientIds.filter fun p => p.1 ≠ c.socket }
  | .disconnected i => (s.advance i .leaving .disconnected).map fun (c, s) => s.dropSubscriptions c.clientId .wasm
  | .unsubscribeAll i => (s.advance i .disconnected .unsubscribed).map fun (c, s) => s.dropSubscriptions c.clientId .sql
  | .close i => (s.advance i .unsubscribed .closed).map Prod.snd
  | .event matched => some { s with senders := s.senders ++ [{ todo := s.addressed matched }] }
  | .find k =>
    match s.senders[k]? with
    | some ⟨a :: todo, none⟩ => some { s with senders := s.senders.set k { todo := todo, found := s.target a } }
    | _ => none
  | .send k =>
    match s.senders[k]? with
    | some ⟨todo, some (socket, a)⟩ =>
      -- nothing is written to a descriptor that is not open
      some { s with
        senders := s.senders.set k { todo := todo }
        written := s.written ++ ((s.holder socket).map fun i => ⟨i, a⟩).toList }
    | _ => none

/-- Nobody uses the client id: no client has it, no subscription, and no frame on its way. -/
def Unused (s : Sockets) (id : Bytes) : Prop :=
  (∀ p ∈ s.clientIds, p.2 ≠ id) ∧ (∀ sub ∈ s.subscriptions, sub.clientId ≠ id) ∧
    ∀ snd ∈ s.senders, ∀ a ∈ snd.todo, a.clientId ≠ id

/-- A descriptor is not given to a new connection while a sender has still to write to it, and no connection is
given a client id that is in use. -/
def NotReused (s : Sockets) : Label → Prop
  | .accept socket => ∀ snd ∈ s.senders, ∀ p ∈ snd.found, p.1 ≠ socket
  | .register i now => ∀ c ∈ s.connections[i]?, s.Unused (clientIdText c.socket now)
  | _ => True

instance (s : Sockets) (id : Bytes) : Decidable (s.Unused id) := inferInstanceAs (Decidable (_ ∧ _ ∧ _))

instance (s : Sockets) : (l : Label) → Decidable (s.NotReused l)
  | .accept socket => inferInstanceAs (Decidable (∀ snd ∈ s.senders, ∀ p ∈ snd.found, p.1 ≠ socket))
  | .register i now => inferInstanceAs (Decidable (∀ c ∈ s.connections[i]?, s.Unused (clientIdText c.socket now)))
  | .refuse _ | .subscribe _ _ | .unsubscribe _ | .erase _ | .disconnected _ | .unsubscribeAll _ | .close _ | .event _
  | .find _ | .send _ => isTrue trivial

/-- Every frame was written to the connection whose subscription it was computed for. -/
def OnlyToOwners (s : Sockets) : Prop := ∀ w ∈ s.written, w.connection = w.frame.owner

/-! ## The invariant -/

/-- Connection `i` is the client of an entry of `client_ids_`. -/
def Registered (s : Sockets) (i : Nat) (p : Nat × Bytes) : Prop :=
  ∃ c, s.connections[i]? = some c ∧ c.phase = .connected ∧ c.socket = p.1

/-- Whoever has the id in `client_ids_` is connection `i`. -/
def Owns (s : Sockets) (i : Nat) (id : Bytes) : Prop := ∀ p ∈ s.clientIds, p.2 = id → s.Registered i p

structure Inv (s : Sockets) : Prop where
  registered : ∀ p ∈ s.clientIds, ∃ i, s.Registered i p
  ids : ∀ p ∈ s.clientIds, ∀ q ∈ s.clientIds, p.2 = q.2 → p = q
  sockets : ∀ (i j : Nat) (c d : Connection), s.connections[i]? = some c → s.connections[j]? = some d → c.phase ≠ .closed → d.phase ≠ .closed →
    c.socket = d.socket → i = j
  subscriptions : ∀ sub ∈ s.subscriptions, s.Owns sub.owner sub.clientId
  todo : ∀ snd ∈ s.senders, ∀ a ∈ snd.todo, s.Owns a.owner a.clientId
  found : ∀ snd ∈ s.senders, ∀ p ∈ snd.found, ∀ (i : Nat) (c : Connection), s.connections[i]? = some c → c.phase ≠ .closed → c.socket = p.1 →
    i = p.2.owner
  written : s.OnlyToOwners

theorem Inv.boot : Inv {} := by constructor <;> simp [OnlyToOwners]

section
variable {s s' : Sockets} {i : Nat} {c c' : Connection}

theorem holder_eq_none {socket : Nat} (h : s.holder socket = none) {j : Nat} {d : Connection}
    (hd : s.connections[j]? = some d) (hopen : d.phase ≠ .closed) : d.socket ≠ socket := by
  intro hsock
  have hno := List.findIdx?_eq_none_iff.1 h d (List.mem_of_getElem? hd)
  simp [hsock, hopen] at hno

theorem holder_eq_some {socket : Nat} (h : s.holder socket = some i) :
    ∃ c, s.connections[i]? = some c ∧ c.phase ≠ .closed ∧ c.socket = socket := by
  obtain ⟨hlt, hc, -⟩ := List.findIdx?_eq_some_iff_getElem.1 h
  simp only [decide_eq_true_eq] at hc
  exact ⟨_, List.getElem?_eq_getElem hlt, hc.2, hc.1⟩

theorem advance_spec {phase phase' : ConnectionPhase} (h : s.advance i phase phase' = some (c, s')) :
    s.connections[i]? = some c ∧ c.phase = phase ∧ s' = { s with connections := s.connections.set i { c with phase := phase' } } := by
  unfold advance at h
  split at h
  · rename_i d hd
    split at h
    · rename_i hphase
      cases h
      exact ⟨hd, hphase, rfl⟩
    · cases h
  · cases h

/-- An open connection that is no client has no entry. -/
theorem Inv.not_registered (h : Inv s) (hc : s.connections[i]? = some c) (hopen : c.phase ≠ .closed)
    (hphase : c.phase ≠ .connected) : ∀ p ∈ s.clientIds, p.1 ≠ c.socket := by
  intro p hp hsock
  obtain ⟨j, d, hd, hconn, hsock'⟩ := h.registered p hp
  have hij : i = j := h.sockets i j c d hc hd hopen (by simp [hconn]) (hsock.symm.trans hsock'.symm)
  subst hij
  rw [hc] at hd
  cases hd
  exact hphase hconn

/-- A connection keeps its socket, and no entry that stays is its own unless it stays a client. -/
theorem Inv.change (h : Inv s) (hc : s.connections[i]? = some c) (c' : Connection) (hsock : c'.socket = c.socket)
    (hopen : c'.phase ≠ .closed → c.phase ≠ .closed) (ids : List (Nat × Bytes)) (hsub : ∀ p ∈ ids, p ∈ s.clientIds)
    (hids : ∀ p ∈ ids, p.1 ≠ c.socket) :
    Inv { s with connections := s.connections.set i c', clientIds := ids } := by
  have hlt := (List.getElem?_eq_some_iff.1 hc).1
  -- what is open now was open before, under the same number
  have hbefore : ∀ (j : Nat) (d : Connection), (s.connections.set i c')[j]? = some d → d.phase ≠ .closed →
      ∃ d₀, s.connections[j]? = some d₀ ∧ d₀.phase ≠ .closed ∧ d₀.socket = d.socket := by
    intro j d hd hdo
    rw [List.getElem?_set] at hd
    split at hd
    · rename_i hij
      subst hij
      cases hd
      exact ⟨c, hc, hopen hdo, hsock.symm⟩
    · exact ⟨d, hd, hdo, rfl⟩
  have hreg : ∀ j, ∀ p ∈ ids, s.Registered j p →
      Registered { s with connections := s.connections.set i c', clientIds := ids } j p := by
    rintro j p hp ⟨d, hd, hconn, hdsock⟩
    have hij : i ≠ j := by
      rintro rfl
      rw [hc] at hd
      cases hd
      exact hids p hp hdsock.symm
    exact ⟨d, by rw [List.getElem?_set_ne hij, hd], hconn, hdsock⟩
  have howns : ∀ j id, s.Owns j id → Owns { s with connections := s.connections.set i c', clientIds := ids } j id :=
    fun j id ho p hp hid => hreg j p hp (ho p (hsub p hp) hid)
  refine ⟨fun p hp => ?_, fun p hp q hq => h.ids p (hsub p hp) q (hsub q hq), fun j k d e hd he hdo heo hde => ?_,
    fun sub hs => howns _ _ (h.subscriptions sub hs), fun snd hsnd a ha => howns _ _ (h.todo snd hsnd a ha),
    fun snd hsnd p hp j d hd hdo hds => ?_, h.written⟩
  · obtain ⟨j, hj⟩ := h.registered p (hsub p hp)
    exact ⟨j, hreg j p hp hj⟩
  · obtain ⟨d₀, hd₀, hdo₀, hds⟩ := hbefore j d hd hdo
    obtain ⟨e₀, he₀, heo₀, hes⟩ := hbefore k e he heo
    exact h.sockets j k d₀ e₀ hd₀ he₀ hdo₀ heo₀ (hds.trans (hde.trans hes.symm))
  · obtain ⟨d₀, hd₀, hdo₀, hds₀⟩ := hbefore j d hd hdo
    exact h.found snd hsnd p hp j d₀ hd₀ hdo₀ (hds₀.trans hds)

/-- A client gets an id that nobody uses. -/
theorem Inv.addId (h : Inv s) (hc : s.connections[i]? = some c) (hconn : c.phase = .connected) {id : Bytes}
    (hunused : s.Unused id) : Inv { s with clientIds := s.clientIds ++ [(c.socket, id)] } := by
  obtain ⟨hfree, hsubs, htodo⟩ := hunused
  have howns : ∀ j id', s.Owns j id' → id' ≠ id → Owns { s with clientIds := s.clientIds ++ [(c.socket, id)] } j id' := by
    intro j id' ho hne p hp hid
    rcases List.mem_append.1 hp with hp | hp
    · exact ho p hp hid
    · rw [List.mem_singleton.1 hp] at hid
      exact absurd hid.symm hne
  refine ⟨fun p hp => ?_, fun p hp q hq hpq => ?_, h.sockets, fun sub hs => howns _ _ (h.subscriptions sub hs) (hsubs sub hs),
    fun snd hsnd a ha => howns _ _ (h.todo snd hsnd a ha) (htodo snd hsnd a ha), h.found, h.written⟩
  · rcases List.mem_append.1 hp with hp | hp
    · exact h.registered p hp
    · rw [List.mem_singleton.1 hp]
      exact ⟨i, c, hc, hconn, rfl⟩
  · rcases List.mem_append.1 hp with hp | hp <;> rcases List.mem_append.1 hq with hq | hq
    · exact h.ids p hp q hq hpq
    · rw [List.mem_singleton.1 hq] at hpq
      exact absurd hpq (hfree p hp)
    · rw [List.mem_singleton.1 hp] at hpq
      exact absurd hpq.symm (hfree q hq)
    · rw [List.mem_singleton.1 hp, List.mem_singleton.1 hq]

theorem Inv.accept (h : Inv s) {socket : Nat} (hfree : s.holder socket = none)
    (hok : ∀ snd ∈ s.senders, ∀ p ∈ snd.found, p.1 ≠ socket) :
    Inv { s with connections := s.connections ++ [{ socket := socket }] } := by
  have hcases : ∀ (j : Nat) (d : Connection), (s.connections ++ [({ socket := socket } : Connection)])[j]? = some d →
      s.connections[j]? = some d ∨ (j = s.connections.length ∧ d.socket = socket) := by
    intro j d hd
    rw [List.getElem?_append] at hd
    split at hd
    · exact Or.inl hd
    · rename_i hge
      obtain ⟨hlt, rfl⟩ := List.getElem?_eq_some_iff.1 hd
      simp only [List.length_singleton] at hlt
      exact Or.inr ⟨by omega, by simp⟩
  have hreg : ∀ j p, s.Registered j p →
      Registered { s with connections := s.connections ++ [{ socket := socket }] } j p := by
    rintro j p ⟨d, hd, hconn, hsock⟩
    exact ⟨d, by rw [List.getElem?_append_left (List.getElem?_eq_some_iff.1 hd).1, hd], hconn, hsock⟩
  refine ⟨fun p hp => ?_, h.ids, fun j k d e hd he hdo heo hde => ?_,
    fun sub hs p hp hid => hreg _ p (h.subscriptions sub hs p hp hid),
    fun snd hsnd a ha p hp hid => hreg _ p (h.todo snd hsnd a ha p hp hid), fun snd hsnd p hp j d hd hdo hds => ?_, h.written⟩
  · obtain ⟨j, hj⟩ := h.registered p hp
    exact ⟨j, hreg j p hj⟩
  · rcases hcases j d hd with hd | ⟨rfl, hds⟩ <;> rcases hcases k e he with he | ⟨rfl, hes⟩
    · exact h.sockets j k d e hd he hdo heo hde
    · exact absurd (hde.trans hes) (holder_eq_none hfree hd hdo)
    · exact absurd (hde.symm.trans hds) (holder_eq_none hfree he heo)
    · rfl
  · rcases hcases j d hd with hd | ⟨-, hsock⟩
    · exact h.found snd hsnd p hp j d hd hdo hds
    · exact absurd (hds.symm.trans hsock) (hok snd hsnd p hp)

theorem Inv.subscribe (h : Inv s) (hc : s.connections[i]? = some c) (hconn : c.phase = .connected) {p : Nat × Bytes}
    (hp : p ∈ s.clientIds) (hsock : p.1 = c.socket) (manager : Manager) :
    Inv { s with subscriptions := s.subscriptions ++ [⟨i, p.2, manager⟩] } := by
  refine ⟨h.registered, h.ids, h.sockets, fun sub hs => ?_, h.todo, h.found, h.written⟩
  rcases List.mem_append.1 hs with hs | hs
  · exact h.subscriptions sub hs
  · rw [List.mem_singleton.1 hs]
    intro q hq hid
    rw [h.ids q hq p hp hid]
    exact ⟨c, hc, hconn, hsock.symm⟩

theorem Inv.fewerSubscriptions (h : Inv s) {subs : List Subscribed} (hsub : ∀ sub ∈ subs, sub ∈ s.subscriptions) :
    Inv { s with subscriptions := subs } :=
  ⟨h.registered, h.ids, h.sockets, fun sub hs => h.subscriptions sub (hsub sub hs), h.todo, h.found, h.written⟩

theorem Inv.dropSubscriptions (h : Inv s) (clientId : Bytes) (manager : Manager) : Inv (s.dropSubscriptions clientId manager) :=
  h.fewerSubscriptions fun _ hs => (List.mem_filter.1 hs).1

theorem Inv.event (h : Inv s) (matched : List (Nat × Bytes)) :
    Inv { s with senders := s.senders ++ [{ todo := s.addressed matched }] } := by
  refine ⟨h.registered, h.ids, h.sockets, h.subscriptions, fun snd hsnd a ha => ?_, fun snd hsnd p hp => ?_, h.written⟩
  · rcases List.mem_append.1 hsnd with hsnd | hsnd
    · exact h.todo snd hsnd a ha
    · rw [List.mem_singleton.1 hsnd] at ha
      obtain ⟨⟨j, message⟩, -, hj⟩ := List.mem_filterMap.1 ha
      obtain ⟨sub, hsub, rfl⟩ := Option.map_eq_some_iff.1 hj
      exact h.subscriptions sub (List.mem_of_getElem? hsub)
  · rcases List.mem_append.1 hsnd with hsnd | hsnd
    · exact h.found snd hsnd p hp
    · rw [List.mem_singleton.1 hsnd] at hp
      cases hp

/-- What is looked up is the descriptor of the owner, and stays so while it is not given away. -/
theorem Inv.find (h : Inv s) {k : Nat} {a : Addressed} {todo : List Addressed} (hk : s.senders[k]? = some ⟨a :: todo, none⟩) :
    Inv { s with senders := s.senders.set k { todo := todo, found := s.target a } } := by
  have hmem := List.mem_of_getElem? hk
  refine ⟨h.registered, h.ids, h.sockets, h.subscriptions, fun snd hsnd b hb => ?_, fun snd hsnd p hp j d hd hdo hds => ?_, h.written⟩
  · rcases List.mem_or_eq_of_mem_set hsnd with hsnd | rfl
    · exact h.todo snd hsnd b hb
    · exact h.todo _ hmem b (List.mem_cons_of_mem _ hb)
  · rcases List.mem_or_eq_of_mem_set hsnd with hsnd | rfl
    · exact h.found snd hsnd p hp j d hd hdo hds
    · obtain ⟨q, hq, rfl⟩ := Option.map_eq_some_iff.1 hp
      have hid : q.2 = a.clientId := by simpa using List.find?_some hq
      obtain ⟨c, hc, hconn, hsock⟩ := h.todo _ hmem a (by simp) q (List.mem_of_find?_eq_some hq) hid
      exact h.sockets j a.owner d c hd hc hdo (by simp [hconn]) (hds.trans hsock.symm)

theorem Inv.send (h : Inv s) {k : Nat} {a : Addressed} {todo : List Addressed} {socket : Nat}
    (hk : s.senders[k]? = some ⟨todo, some (socket, a)⟩) :
    Inv { s with
      senders := s.senders.set k { todo := todo }
      written := s.written ++ ((s.holder socket).map fun i => ⟨i, a⟩).toList } := by
  have hmem := List.mem_of_getElem? hk
  refine ⟨h.registered, h.ids, h.sockets, h.subscriptions, fun snd hsnd b hb => ?_, fun snd hsnd p hp => ?_, fun w hw => ?_⟩
  · rcases List.mem_or_eq_of_mem_set hsnd with hsnd | rfl
    · exact h.todo snd hsnd b hb
    · exact h.todo _ hmem b hb
  · rcases List.mem_or_eq_of_mem_set hsnd with hsnd | rfl
    · exact h.found snd hsnd p hp
    · cases hp
  · rcases List.mem_append.1 hw with hw | hw
    · exact h.written w hw
    · obtain ⟨j, hj, rfl⟩ := Option.map_eq_some_iff.1 (Option.mem_toList.1 hw)
      obtain ⟨c, hc, hopen, hsock⟩ := holder_eq_some hj
      exact h.found _ hmem (socket, a) rfl j c hc hopen hsock

/-- A thread goes on to a phase in which it is no client. -/
theorem Inv.advance (h : Inv s) {phase phase' : ConnectionPhase} (hphase : phase ≠ .closed ∧ phase ≠ .connected)
    (hstep : s.advance i phase phase' = some (c, s')) : Inv s' := by
  obtain ⟨hc, rfl, rfl⟩ := advance_spec hstep
  exact h.change hc { c with phase := phase' } rfl (fun _ => hphase.1) s.clientIds (fun p hp => hp) (h.not_registered hc hphase.1 hphase.2)

/-- **A step keeps the invariant** where no number and no id is reused too early. -/
theorem Inv.step {l : Label} (h : Inv s) (hok : s.NotReused l) (hstep : s.step l = some s') : Inv s' := by
  cases l with
  | accept socket =>
    simp only [Sockets.step] at hstep
    split at hstep
    · rename_i hfree
      cases hstep
      exact h.accept hfree hok
    · cases hstep
  | refuse i =>
    obtain ⟨⟨c, t⟩, ht, rfl⟩ := Option.map_eq_some_iff.1 hstep
    exact h.advance (by simp) ht
  | register i now =>
    simp only [Sockets.step] at hstep
    split at hstep
    · rename_i c hc
      split at hstep
      · rename_i hphase
        cases hstep
        obtain ⟨hfree, hsubs, htodo⟩ := hok c hc
        let c' : Connection := { c with phase := .connected, clientId := clientIdText c.socket now }
        have hchanged := h.change hc c' rfl (fun _ => by simp [hphase]) (s.clientIds.filter fun p => p.1 ≠ c.socket)
          (fun p hp => (List.mem_filter.1 hp).1) (fun p hp => by simpa using (List.mem_filter.1 hp).2)
        have hc' : (s.connections.set i c')[i]? = some c' := by simp [(List.getElem?_eq_some_iff.1 hc).1]
        exact hchanged.addId hc' rfl
          ⟨fun p hp => hfree p (List.mem_filter.1 hp).1, hsubs, htodo⟩
      · cases hstep
    · cases hstep
  | subscribe i manager =>
    simp only [Sockets.step] at hstep
    split at hstep
    · rename_i c hc
      split at hstep
      · rename_i hconn
        split at hstep
        · rename_i p hp
          cases hstep
          exact h.subscribe hc hconn (List.mem_of_find?_eq_some hp) (by simpa using List.find?_some hp) manager
        · cases hstep
          exact h
      · cases hstep
    · cases hstep
  | unsubscribe j =>
    cases hstep
    exact h.fewerSubscriptions fun sub hs => List.mem_of_mem_eraseIdx hs
  | erase i =>
    obtain ⟨⟨c, t⟩, ht, rfl⟩ := Option.map_eq_some_iff.1 hstep
    obtain ⟨hc, hphase, rfl⟩ := advance_spec ht
    exact h.change hc { c with phase := .leaving } rfl (fun _ => by simp [hphase]) _ (fun p hp => (List.mem_filter.1 hp).1)
      (fun p hp => by simpa using (List.mem_filter.1 hp).2)
  | disconnected i =>
    obtain ⟨⟨c, t⟩, ht, rfl⟩ := Option.map_eq_some_iff.1 hstep
    exact (h.advance (by simp) ht).dropSubscriptions _ _
  | unsubscribeAll i =>
    obtain ⟨⟨c, t⟩, ht, rfl⟩ := Option.map_eq_some_iff.1 hstep
    exact (h.advance (by simp) ht).dropSubscriptions _ _
  | close i =>
    obtain ⟨⟨c, t⟩, ht, rfl⟩ := Option.map_eq_some_iff.1 hstep
    exact h.advance (by simp) ht
  | event matched =>
    cases hstep
    exact h.event matched
  | find k =>
    simp only [Sockets.step] at hstep
    split at hstep
    · rename_i a todo hk
      cases hstep
      exact h.find hk
    · cases hstep
  | send k =>
    simp only [Sockets.step] at hstep
    split at hstep
    · rename_i todo socket a hk
      cases hstep
      exact h.send hk
    · cases hstep

/-! ## Numbers given away too early -/

/-- The owners of subscriptions and of frames are connections that were accepted. -/
structure Owned (s : Sockets) : Prop where
  subscriptions : ∀ sub ∈ s.subscriptions, sub.owner < s.connections.length
  todo : ∀ snd ∈ s.senders, ∀ a ∈ snd.todo, a.owner < s.connections.length
  found : ∀ snd ∈ s.senders, ∀ p ∈ snd.found, p.2.owner < s.connections.length

theorem Owned.boot : Owned {} := by constructor <;> simp

/-- No subscription is new and no frame is, and connections stay. -/
theorem Owned.keep (h : Owned s) (hlength : s.connections.length ≤ s'.connections.length)
    (hsubs : ∀ sub ∈ s'.subscriptions, sub ∈ s.subscriptions) (hsenders : s'.senders = s.senders) : Owned s' := by
  refine ⟨fun sub hs => (h.subscriptions sub (hsubs sub hs)).trans_le hlength, ?_, ?_⟩ <;> rw [hsenders]
  · exact fun snd hsnd a ha => (h.todo snd hsnd a ha).trans_le hlength
  · exact fun snd hsnd p hp => (h.found snd hsnd p hp).trans_le hlength

theorem Owned.advance (h : Owned s) {phase phase' : ConnectionPhase} (hstep : s.advance i phase phase' = some (c, s')) :
    Owned s' := by
  obtain ⟨-, -, rfl⟩ := advance_spec hstep
  exact h.keep (by simp) (fun _ hs => hs) rfl

theorem Owned.dropSubscriptions (h : Owned s) (clientId : Bytes) (manager : Manager) :
    Owned (s.dropSubscriptions clientId manager) :=
  h.keep le_rfl (fun _ hs => (List.mem_filter.1 hs).1) rfl

/-- One sender has no more to send than before, and what it found it had to send. -/
theorem Owned.setSender (h : Owned s) {k : Nat} {snd : Sender} (snd' : Sender) (hk : s.senders[k]? = some snd)
    (htodo : ∀ a ∈ snd'.todo, a ∈ snd.todo) (hfound : ∀ p ∈ snd'.found, p.2 ∈ snd.todo) (written : List Written) :
    Owned { s with senders := s.senders.set k snd', written := written } := by
  have hmem := List.mem_of_getElem? hk
  refine ⟨h.subscriptions, fun snd₁ hsnd a ha => ?_, fun snd₁ hsnd p hp => ?_⟩
  · rcases List.mem_or_eq_of_mem_set hsnd with hsnd | rfl
    · exact h.todo snd₁ hsnd a ha
    · exact h.todo snd hmem a (htodo a ha)
  · rcases List.mem_or_eq_of_mem_set hsnd with hsnd | rfl
    · exact h.found snd₁ hsnd p hp
    · exact h.todo snd hmem p.2 (hfound p hp)

theorem Owned.event (h : Owned s) (matched : List (Nat × Bytes)) :
    Owned { s with senders := s.senders ++ [{ todo := s.addressed matched }] } := by
  refine ⟨h.subscriptions, fun snd hsnd a ha => ?_, fun snd hsnd p hp => ?_⟩
  · rcases List.mem_append.1 hsnd with hsnd | hsnd
    · exact h.todo snd hsnd a ha
    · rw [List.mem_singleton.1 hsnd] at ha
      obtain ⟨⟨j, message⟩, -, hj⟩ := List.mem_filterMap.1 ha
      obtain ⟨sub, hsub, rfl⟩ := Option.map_eq_some_iff.1 hj
      exact h.subscriptions sub (List.mem_of_getElem? hsub)
  · rcases List.mem_append.1 hsnd with hsnd | hsnd
    · exact h.found snd hsnd p hp
    · rw [List.mem_singleton.1 hsnd] at hp
      cases hp

theorem Owned.subscribe (h : Owned s) (hlt : i < s.connections.length) (clientId : Bytes) (manager : Manager) :
    Owned { s with subscriptions := s.subscriptions ++ [⟨i, clientId, manager⟩] } := by
  refine ⟨fun sub hs => ?_, h.todo, h.found⟩
  rcases List.mem_append.1 hs with hs | hs
  · exact h.subscriptions sub hs
  · rw [List.mem_singleton.1 hs]
    exact hlt

/-- Whatever is reused, no step makes an owner up. -/
theorem Owned.step {l : Label} (h : Owned s) (hstep : s.step l = some s') : Owned s' := by
  cases l with
  | accept socket =>
    simp only [Sockets.step] at hstep
    split at hstep
    · cases hstep
      exact h.keep (by simp) (fun _ hs => hs) rfl
    · cases hstep
  | refuse i =>
    obtain ⟨⟨c, t⟩, ht, rfl⟩ := Option.map_eq_some_iff.1 hstep
    exact h.advance ht
  | register i now =>
    simp only [Sockets.step] at hstep
    split at hstep
    · split at hstep
      · cases hstep
        exact h.keep (by simp) (fun _ hs => hs) rfl
      · cases hstep
    · cases hstep
  | subscribe i manager =>
    simp only [Sockets.step] at hstep
    split at hstep
    · rename_i c hc
      split at hstep
      · split at hstep
        · cases hstep
          exact h.subscribe (List.getElem?_eq_some_iff.1 hc).1 _ manager
        · cases hstep
          exact h
      · cases hstep
    · cases hstep
  | unsubscribe j =>
    cases hstep
    exact h.keep le_rfl (fun _ hs => List.mem_of_mem_eraseIdx hs) rfl
  | erase i =>
    obtain ⟨⟨c, t⟩, ht, rfl⟩ := Option.map_eq_some_iff.1 hstep
    exact (h.advance ht).keep le_rfl (fun _ hs => hs) rfl
  | disconnected i =>
    obtain ⟨⟨c, t⟩, ht, rfl⟩ := Option.map_eq_some_iff.1 hstep
    exact (h.advance ht).dropSubscriptions _ _
  | unsubscribeAll i =>
    obtain ⟨⟨c, t⟩, ht, rfl⟩ := Option.map_eq_some_iff.1 hstep
    exact (h.advance ht).dropSubscriptions _ _
  | close i =>
    obtain ⟨⟨c, t⟩, ht, rfl⟩ := Option.map_eq_some_iff.1 hstep
    exact h.advance ht
  | event matched =>
    cases hstep
    exact h.event matched
  | find k =>
    simp only [Sockets.step] at hstep
    split at hstep
    · rename_i a todo hk
      cases hstep
      refine h.setSender ⟨todo, s.target a⟩ hk (fun b hb => List.mem_cons_of_mem _ hb) (fun p hp => ?_) s.written
      obtain ⟨q, -, rfl⟩ := Option.map_eq_some_iff.1 hp
      exact List.mem_cons_self
    · cases hstep
  | send k =>
    simp only [Sockets.step] at hstep
    split at hstep
    · rename_i todo socket a hk
      cases hstep
      exact h.setSender ⟨todo, none⟩ hk (fun b hb => hb) (fun p hp => by cases hp) _
    · cases hstep

/-- Where a number is given away too early, the frame goes to the connection that got it. -/
theorem frame_leaks {k : Nat} {a : Addressed} {todo : List Addressed} {socket : Nat} (hfree : s.holder socket = none)
    (hk : s.senders[k]? = some ⟨todo, some (socket, a)⟩) (howner : a.owner < s.connections.length) :
    ∃ t, run Sockets.step s [.accept socket, .send k] = some t ∧ ¬ t.OnlyToOwners := by
  have hholder : holder { s with connections := s.connections ++ [{ socket := socket }] } socket = some s.connections.length := by
    rw [holder] at hfree ⊢
    rw [List.findIdx?_append, hfree]
    simp
  refine ⟨_, by simp only [run, Sockets.step, hfree, if_true, hk, hholder]; rfl, fun h => ?_⟩
  have hown := h ⟨s.connections.length, a⟩ (by simp)
  simp only at hown
  omega

/-- Every `accept` that is not allowed lets some frame reach a connection it was not computed for. -/
theorem Owned.leaks (h : Owned s) {socket : Nat} (hfree : s.holder socket = none) (hreused : ¬ s.NotReused (.accept socket)) :
    ∃ k t, run Sockets.step s [.accept socket, .send k] = some t ∧ ¬ t.OnlyToOwners := by
  simp only [NotReused, not_forall, not_not] at hreused
  obtain ⟨snd, hsnd, p, hp, rfl⟩ := hreused
  obtain ⟨k, hk⟩ := List.mem_iff_getElem?.1 hsnd
  have howner := h.found snd hsnd p hp
  obtain ⟨todo, found⟩ := snd
  cases hp
  exact ⟨k, frame_leaks hfree hk howner⟩

end

/-- **Frames reach only their owners** in a run in which no descriptor is given to a new connection while a sender
has still to write to it. In every run, to give it away then lets the frame go to the new connection. -/
theorem frames_reach_owners (ls : List Label) (s : Sockets) (hrun : run Sockets.step {} ls = some s) :
    (Allowed Sockets.step NotReused {} ls → s.OnlyToOwners) ∧
    ∀ socket, s.holder socket = none → ¬ s.NotReused (.accept socket) →
      ∃ k t, run Sockets.step s [.accept socket, .send k] = some t ∧ ¬ t.OnlyToOwners := by
  refine ⟨fun hok => (run_invariant Inv (fun _ _ _ h hl hs => h.step hl hs) Inv.boot hok hrun).written, fun socket => ?_⟩
  have hall : Allowed Sockets.step (fun _ _ => True) {} ls := Allowed.of_forall fun _ _ _ => trivial
  exact (run_invariant Owned (fun _ _ _ h _ hs => h.step hs) Owned.boot hall hrun).leaks

/-- A frame for the first connection; the second gets another number. -/
def apart : List Label :=
  [.accept 7, .register 0 1, .subscribe 0 .sql, .event [(0, str "row")], .find 0, .erase 0, .disconnected 0,
   .unsubscribeAll 0, .close 0, .accept 8, .register 1 2, .send 0]

/-- The second connection is given the number of the first, which the frame is still to be written to. -/
def recycled : List Label :=
  [.accept 7, .register 0 1, .subscribe 0 .sql, .event [(0, str "row")], .find 0, .erase 0, .disconnected 0,
   .unsubscribeAll 0, .close 0, .accept 7, .register 1 2, .send 0]

theorem frames_reach_owners_apart : ∃ s, run Sockets.step {} apart = some s ∧ s.OnlyToOwners := by
  have hrun : (run Sockets.step {} apart).isSome = true := by decide
  obtain ⟨s, hs⟩ := Option.isSome_iff_exists.1 hrun
  exact ⟨s, hs, (frames_reach_owners apart s hs).1 (by decide)⟩

/-- The frame of the first client is read by the second. -/
theorem frame_leaked : ∃ s, run Sockets.step {} recycled = some s ∧ ¬ s.OnlyToOwners := by
  have hrun : (run Sockets.step {} recycled).map (fun s => s.written.map fun w => (w.connection, w.frame.owner)) =
      some [(1, 0)] := by decide
  obtain ⟨s, hs, hw⟩ := Option.map_eq_some_iff.1 hrun
  obtain ⟨w, hmem, hpair⟩ := List.mem_map.1 (hw ▸ List.mem_singleton_self (1, 0))
  refine ⟨s, hs, fun h => ?_⟩
  have hown := h w hmem
  simp only [Prod.mk.injEq] at hpair
  rw [hpair.1, hpair.2] at hown
  cases hown

end Sockets

end OriginDB
