import Mathlib.Data.List.Sublists
import OriginDB.Websocket.HandleClient
/-!
# What a connection is sent (`websocket_server.cpp:414-443, 515-576, 702-762`)

| here | there |
| --- | --- |
| `deliver` | the frames of events for one connection: each `send` in a `try` of its own (`:749-756`) |
| `Writing` | the two that write to a connection: the delivery thread, and the connection's own |
| `output`  | the bytes that `send` took of a sequence of frames, whoever sent them |

`SendWebSocketFrame` throws when `send` took only some of a frame. The delivery thread logs that and sends the next
frame, and `HandleWebSocketMessage` answers it with an error frame; nothing closes the connection, and what is taken
next lands in the middle of the frame (`wholeFrames_iff`).
-/
namespace OriginDB

open JsonDoc ByteCodec Throwing

/-- Some of a frame was taken, and not all. -/
def SendResult.Torn (r : SendResult) : Prop := ∃ n, r = .fewer (n + 1)

/-- Nothing was. -/
def SendResult.Silent (r : SendResult) : Prop := r = .error ∨ r = .fewer 0

instance (r : SendResult) : Decidable r.Torn :=
  match r with
  | .fewer (n + 1) => isTrue ⟨n, rfl⟩
  | .fewer 0 => isFalse (by rintro ⟨n, h⟩; cases h)
  | .all => isFalse (by rintro ⟨n, h⟩; cases h)
  | .error => isFalse (by rintro ⟨n, h⟩; cases h)

instance (r : SendResult) : Decidable r.Silent := inferInstanceAs (Decidable (_ ∨ _))

namespace ClientThread

section
variable (host : Host)

/-- The sends of `OnChangefeedEvent` (websocket_server.cpp:702) to one connection: what one of them throws is logged. -/
def deliver : List Bytes → Handler Unit
  | [] => pure ()
  | text :: texts => do
    try sendWebSocketFrame host text
    catch _ => pure ()
    deliver texts

/-- What writes to a connection: its own thread, with a message, and the delivery thread, with the texts of an event. -/
inductive Writing where
  | handler (message : Bytes)
  | delivery (texts : List Bytes)

/-- An exception that leaves the handler of a message ends the process. -/
def writes (socket : Nat) : List Writing → Handler Unit
  | [] => pure ()
  | .handler message :: ws => do
    handleWebSocketMessage host socket message
    writes socket ws
  | .delivery texts :: ws => do
    deliver host texts
    writes socket ws

/-- The bytes on the wire of a new connection when these frames are sent one by one and nobody gives up. -/
def output (texts : List Bytes) : Bytes := (exec (deliver host texts) {}).2.wire

/-- The output is a stream of frames that were sent, and whole but for the last. -/
structure WholeFrames (texts : List Bytes) : Prop where
  prefix_of_frames : ∃ kept : List Bytes, kept.Sublist texts ∧ output host texts <+: kept.flatMap WebSocketFrame.textFrame
  nothing_after_torn : ∀ n < texts.length, (host.sends n).Torn → output host texts = output host (texts.take (n + 1))

/-- What is taken of the frames from send `n` on. -/
def written (n : Nat) : List Bytes → Bytes
  | [] => []
  | text :: texts => (host.sends n).taken (WebSocketFrame.textFrame text) ++ written (n + 1) texts

end

/-- What the thread wrote are frames it sent one by one. -/
def Wrote (host : Host) (t t' : ClientThread) : Prop :=
  ∃ texts : List Bytes, t'.attempts = t.attempts + texts.length ∧ t'.wire = t.wire ++ written host t.attempts texts

section
variable {host : Host} {t t' : ClientThread} {text : Bytes} {texts : List Bytes} {n : Nat}

/-! ## What is taken -/

theorem taken_eq_nil_iff (r : SendResult) (text : Bytes) : r.taken (WebSocketFrame.textFrame text) = [] ↔ r.Silent := by
  have htwo : 2 ≤ (WebSocketFrame.textFrame text).length := by
    unfold WebSocketFrame.textFrame
    simp only
    split
    · simp
    · split <;> simp
  cases r with
  | all =>
    refine iff_of_false ?_ (by rintro (h | h) <;> cases h)
    rw [SendResult.taken, List.eq_nil_iff_length_eq_zero]
    omega
  | error => exact iff_of_true rfl (Or.inl rfl)
  | fewer k =>
    have hlength : ((WebSocketFrame.textFrame text).dropLast.take k).length = 0 ↔ k = 0 := by
      rw [List.length_take, List.length_dropLast]
      omega
    rw [SendResult.taken, ← List.length_eq_zero_iff, hlength]
    constructor
    · rintro rfl
      exact Or.inr rfl
    · rintro (h | h) <;> cases h
      rfl

theorem taken_prefix (r : SendResult) (bytes : Bytes) : r.taken bytes <+: bytes := by
  cases r with
  | all => exact List.prefix_refl _
  | error => exact List.nil_prefix
  | fewer k => exact (List.take_prefix _ _).trans (List.dropLast_prefix _)

@[simp] theorem written_nil (host : Host) (n : Nat) : written host n [] = [] := rfl

@[simp] theorem written_cons (host : Host) (n : Nat) (text : Bytes) (texts : List Bytes) : written host n (text :: texts) =
    (host.sends n).taken (WebSocketFrame.textFrame text) ++ written host (n + 1) texts := rfl

theorem written_append (host : Host) (n : Nat) (texts texts' : List Bytes) :
    written host n (texts ++ texts') = written host n texts ++ written host (n + texts.length) texts' := by
  induction texts generalizing n with
  | nil => simp
  | cons text texts ih =>
    rw [List.cons_append, written_cons, written_cons, ih, List.append_assoc, List.length_cons]
    congr 3
    omega

/-- Nothing is written exactly when no send takes anything. -/
theorem written_eq_nil_iff (host : Host) (n : Nat) (texts : List Bytes) :
    written host n texts = [] ↔ ∀ k < texts.length, (host.sends (n + k)).Silent := by
  induction texts generalizing n with
  | nil => simp
  | cons text texts ih =>
    rw [written_cons, List.append_eq_nil_iff, taken_eq_nil_iff, ih, List.length_cons, Nat.forall_lt_succ_left]
    refine and_congr_right fun _ => forall_congr' fun k => ?_
    have hk : n + 1 + k = n + (k + 1) := by omega
    rw [hk]

/-- Whatever `send` does, the next frame is sent. -/
theorem exec_deliver (host : Host) (texts : List Bytes) (t : ClientThread) : ∃ t', exec (deliver host texts) t = (.ok (), t') ∧
    t'.attempts = t.attempts + texts.length ∧ t'.wire = t.wire ++ written host t.attempts texts := by
  induction texts generalizing t with
  | nil => exact ⟨t, rfl, rfl, by simp⟩
  | cons text texts ih =>
    obtain ⟨t', hexec, hattempts, hwire⟩ := ih (t.afterSend text (host.sends t.attempts))
    have hfirst : exec (tryCatch (sendWebSocketFrame host text) fun _ => pure ()) t =
        (.ok (), t.afterSend text (host.sends t.attempts)) := by
      by_cases hall : host.sends t.attempts = .all
      · exact exec_tryCatch_ok (by rw [exec_sendWebSocketFrame, if_pos hall]) _
      · rw [exec_tryCatch_error (by rw [exec_sendWebSocketFrame, if_neg hall])]
        rfl
    refine ⟨t', ?_, ?_, ?_⟩
    · rw [deliver]
      exact (exec_bind_ok hfirst _).trans hexec
    · rw [hattempts, List.length_cons, attempts_afterSend]
      omega
    · rw [hwire, written_cons, ← List.append_assoc]
      rfl

theorem output_eq (host : Host) (texts : List Bytes) : output host texts = written host 0 texts := by
  obtain ⟨t', hexec, -, hwire⟩ := exec_deliver host texts {}
  rw [output, hexec, hwire]
  rfl

/-! ## Whole frames -/

/-- The frames up to the first torn one, if nothing comes after it. -/
theorem written_prefix (h : ∀ i j, i < j → j < texts.length → (host.sends (n + i)).Torn → (host.sends (n + j)).Silent) :
    ∃ kept : List Bytes, kept.Sublist texts ∧ written host n texts <+: kept.flatMap WebSocketFrame.textFrame := by
  induction texts generalizing n with
  | nil => exact ⟨[], List.Sublist.refl _, List.nil_prefix⟩
  | cons text texts ih =>
    have hrest : ∀ i j, i < j → j < texts.length → (host.sends (n + 1 + i)).Torn → (host.sends (n + 1 + j)).Silent := by
      intro i j hij hj htorn
      have hshift := h (i + 1) (j + 1) (by omega) (by rw [List.length_cons]; omega)
      have hi : n + 1 + i = n + (i + 1) := by omega
      have hj' : n + 1 + j = n + (j + 1) := by omega
      rw [hi] at htorn
      rw [hj']
      exact hshift htorn
    obtain ⟨kept, hkept, hprefix⟩ := ih hrest
    rw [written_cons]
    cases hsend : host.sends n with
    | all =>
      refine ⟨text :: kept, hkept.cons_cons text, ?_⟩
      rw [List.flatMap_cons]
      exact (List.prefix_append_right_inj _).2 hprefix
    | error => exact ⟨kept, hkept.cons text, hprefix⟩
    | fewer k =>
      cases k with
      | zero =>
        refine ⟨kept, hkept.cons text, ?_⟩
        rw [(taken_eq_nil_iff (.fewer 0) text).2 (Or.inr rfl), List.nil_append]
        exact hprefix
      | succ k =>
        -- the torn frame is the last
        have hnothing : written host (n + 1) texts = [] := by
          rw [written_eq_nil_iff]
          intro j hj
          have hafter := h 0 (j + 1) (by omega) (by rw [List.length_cons]; omega) ⟨k, hsend⟩
          have hshift : n + 1 + j = n + (j + 1) := by omega
          rwa [hshift]
        refine ⟨[text], by simp, ?_⟩
        rw [hnothing, List.append_nil, List.flatMap_cons, List.flatMap_nil, List.append_nil]
        exact taken_prefix _ _

theorem output_take_eq_iff (hn : n < texts.length) : output host texts = output host (texts.take (n + 1)) ↔
    ∀ k, n < k → k < texts.length → (host.sends k).Silent := by
  have hsplit : written host 0 texts = written host 0 (texts.take (n + 1)) ++ written host (n + 1) (texts.drop (n + 1)) := by
    have happend := written_append host 0 (texts.take (n + 1)) (texts.drop (n + 1))
    rw [List.take_append_drop, List.length_take, min_eq_left (by omega), Nat.zero_add] at happend
    exact happend
  rw [output_eq, output_eq, hsplit, List.append_right_eq_self, written_eq_nil_iff, List.length_drop]
  constructor
  · intro h k hk hlt
    have hsilent := h (k - (n + 1)) (by omega)
    have hk' : n + 1 + (k - (n + 1)) = k := by omega
    rwa [hk'] at hsilent
  · intro h k hk
    exact h (n + 1 + k) (by omega) (by omega)

/-- What is sent in any order is whole exactly when nothing is taken after a torn frame. -/
theorem wholeFrames_iff (host : Host) (texts : List Bytes) : WholeFrames host texts ↔
    ∀ m n, m < n → n < texts.length → (host.sends m).Torn → (host.sends n).Silent := by
  constructor
  · intro h m n hmn hn htorn
    exact (output_take_eq_iff (by omega)).1 (h.nothing_after_torn m (by omega) htorn) n hmn hn
  · intro h
    refine ⟨?_, fun n hn htorn => (output_take_eq_iff hn).2 fun k hk hlt => h n k hk hlt htorn⟩
    rw [output_eq]
    apply written_prefix
    simpa using h

/-! ## The threads send frames and nothing else -/

theorem Wrote.refl (host : Host) (t : ClientThread) : Wrote host t t := ⟨[], rfl, by simp⟩

theorem Wrote.trans {t'' : ClientThread} (h : Wrote host t t') (h' : Wrote host t' t'') : Wrote host t t'' := by
  obtain ⟨texts, hattempts, hwire⟩ := h
  obtain ⟨texts', hattempts', hwire'⟩ := h'
  refine ⟨texts ++ texts', ?_, ?_⟩
  · rw [hattempts', hattempts, List.length_append]
    omega
  · rw [hwire', hwire, written_append, hattempts, List.append_assoc]

/-- A program that writes frames and nothing else. -/
abbrev Writes {α : Type} (host : Host) (m : Handler α) : Prop := Keeps (Wrote host) m

section
variable {α β : Type}

theorem writes_pure (host : Host) (a : α) : Writes host (pure a : Handler α) := keeps_pure (Wrote.refl host) a

theorem writes_throw (host : Host) (e : Bytes) : Writes host (throw e : Handler α) := keeps_throw (Wrote.refl host) e

theorem Writes.bind {m : Handler α} {f : α → Handler β} (hm : Writes host m) (hf : ∀ a, Writes host (f a)) :
    Writes host (m >>= f) :=
  Keeps.bind (R := Wrote host) (fun _ _ _ => Wrote.trans) hm hf

theorem Writes.tryCatch {m : Handler α} {h : Bytes → Handler α} (hm : Writes host m) (hh : ∀ e, Writes host (h e)) :
    Writes host (tryCatch m h) :=
  Keeps.tryCatch (R := Wrote host) (fun _ _ _ => Wrote.trans) hm hh

end

theorem writes_get (host : Host) : Writes host (get : Handler ClientThread) := fun t => Wrote.refl host t

theorem writes_modify {f : ClientThread → ClientThread} (h : ∀ t, (f t).attempts = t.attempts ∧ (f t).wire = t.wire) :
    Writes host (modify f : Handler Unit) := by
  intro t
  exact ⟨[], (h t).1, by simpa using (h t).2⟩

theorem writes_sendJson (host : Host) (j : Json) : Writes host (sendJson host j) := by
  intro t
  cases hd : host.lib.dump j with
  | none =>
    rw [exec_sendJson_unprintable hd]
    exact Wrote.refl host t
  | some text =>
    rw [exec_sendJson hd]
    exact ⟨[text], rfl, by simp [afterSend, transmit]⟩

theorem Writes.reporting {report : Bytes → Json} {body : Handler Unit} (h : Writes host body) :
    Writes host (reporting host report body) :=
  h.tryCatch fun _ => writes_sendJson host _

theorem writes_parse (host : Host) (message : Bytes) : Writes host (parse host message) := by
  unfold parse
  cases host.lib.parse message with
  | none => exact writes_throw host _
  | some request => exact writes_pure host request

theorem writes_value (host : Host) (request : Json) (k : Bytes) : Writes host (value host request k) := by
  unfold value
  cases request.valueOr k [] with
  | none => exact writes_throw host _
  | some v => exact writes_pure host v

theorem writes_sendState (host : Host) (state : Except Bytes Json) (id failure : Bytes) :
    Writes host (sendState host state id failure) := by
  refine Writes.reporting ?_
  cases state with
  | error e => exact writes_throw host e
  | ok j => exact writes_sendJson host j

theorem writes_sendInitialState (host : Host) (sql id : Bytes) : Writes host (sendInitialState host sql id) := by
  unfold sendInitialState
  cases host.initialState with
  | none => exact writes_pure host ()
  | some state => exact (writes_get host).bind fun t => writes_sendState host _ _ _

theorem writes_sendInitialStateAllTables (host : Host) (id : Bytes) : Writes host (sendInitialStateAllTables host id) := by
  unfold sendInitialStateAllTables
  cases host.initialStateAllTables with
  | none => exact writes_pure host ()
  | some state => exact (writes_get host).bind fun t => writes_sendState host _ _ _

theorem writes_subscribe (host : Host) (clientId sql : Bytes) : Writes host (subscribe clientId sql) := by
  unfold subscribe
  refine (writes_get host).bind fun t => Writes.bind (writes_modify fun _ => by exact ⟨rfl, rfl⟩) fun _ => ?_
  split
  · exact writes_throw host _
  · exact writes_pure host _

theorem writes_handleSqlSubscriptionRequest (host : Host) (socket : Nat) (message : Bytes) :
    Writes host (handleSqlSubscriptionRequest host socket message) := by
  unfold handleSqlSubscriptionRequest
  split
  · exact writes_sendJson host _
  · refine Writes.reporting ((writes_parse host message).bind fun request => (writes_get host).bind fun t => ?_)
    simp only
    split
    · exact writes_sendJson host _
    · cases request.constMember (str "sql") with
      | none => exact writes_sendJson host _
      | some field =>
        simp only
        cases field.asString with
        | none => exact writes_throw host _
        | some sql =>
          exact (writes_subscribe host _ sql).bind fun id =>
            (writes_sendJson host _).bind fun _ => writes_sendInitialState host sql id

theorem writes_handleSubscribeToAllTablesRequest (host : Host) (socket : Nat) :
    Writes host (handleSubscribeToAllTablesRequest host socket) := by
  unfold handleSubscribeToAllTablesRequest
  split
  · exact writes_sendJson host _
  · refine Writes.reporting ((writes_get host).bind fun t => ?_)
    simp only
    split
    · exact writes_sendJson host _
    · refine Writes.bind (writes_modify fun _ => by exact ⟨rfl, rfl⟩) fun _ => ?_
      exact (writes_sendJson host _).bind fun _ => writes_sendInitialStateAllTables host _

theorem writes_handleSubscriptionRequest (host : Host) (socket : Nat) (message : Bytes) :
    Writes host (handleSubscriptionRequest host socket message) := by
  unfold handleSubscriptionRequest
  cases host.wasmManager with
  | none => exact writes_sendJson host _
  | some hooks =>
    refine Writes.reporting ((writes_parse host message).bind fun request => (writes_get host).bind fun t => ?_)
    simp only
    split
    · exact writes_sendJson host _
    · split
      · exact writes_sendJson host _
      · cases WebSocketServer.wasmQuery (t.server.clientId socket) request with
        | none => exact writes_throw host _
        | some query =>
          refine Writes.bind (writes_modify fun _ => by exact ⟨rfl, rfl⟩) fun _ => ?_
          cases hooks.initialData t.handled with
          | error e => exact (writes_throw host e).bind fun _ => writes_sendJson host _
          | ok data =>
            cases data with
            | none => exact (writes_pure host ()).bind fun _ => writes_sendJson host _
            | some event =>
              exact ((writes_sendJson host event).tryCatch fun _ => writes_pure host ()).bind fun _ => writes_sendJson host _

theorem writes_handleCallReducer (host : Host) (socket : Nat) (message : Bytes) :
    Writes host (handleCallReducer host socket message) := by
  unfold handleCallReducer
  cases host.lib.parse message with
  | none => exact writes_sendJson host _
  | some request =>
    simp only
    cases request.valueOr (str "id") [] with
    | none => exact writes_sendJson host _
    | some id =>
      simp only
      unfold answering
      refine Writes.bind (Writes.tryCatch ?_ fun e => (writes_sendJson host _).bind fun _ => writes_pure host none)
        fun answer => ?_
      · intro t
        rw [exec_callReducer]
        cases callEnd host t socket request with
        | answered error success =>
          exact ((writes_sendJson host (callFailed (some id) (str error) success)).bind fun _ => writes_pure host none) t
        | threw e => exact Wrote.refl host t
        | called result => exact Wrote.refl host t
      · cases answer with
        | none => exact writes_pure host ()
        | some p =>
          obtain ⟨success, response⟩ := p
          simp only
          split
          · exact writes_sendJson host response
          · exact writes_pure host ()

/-- The handler of a message writes frames and nothing else. -/
theorem writes_handleWebSocketMessage (host : Host) (socket : Nat) (message : Bytes) :
    Writes host (handleWebSocketMessage host socket message) := by
  unfold handleWebSocketMessage
  refine Writes.bind (writes_modify fun _ => by exact ⟨rfl, rfl⟩) fun _ => Writes.reporting ?_
  refine (writes_parse host message).bind fun request => (writes_value host request _).bind fun type => ?_
  split
  · exact writes_sendJson host _
  · split
    · exact writes_handleSqlSubscriptionRequest host socket message
    · split
      · refine (writes_value host request _).bind fun id => ?_
        split
        · exact Writes.bind (writes_modify fun _ => by exact ⟨rfl, rfl⟩) fun _ => writes_sendJson host _
        · exact writes_sendJson host _
      · split
        · exact writes_handleSubscribeToAllTablesRequest host socket
        · split
          · exact writes_handleSubscriptionRequest host socket message
          · split
            · exact writes_handleCallReducer host socket message
            · split
              · exact writes_sendJson host _
              · exact writes_sendJson host _

/-- Whatever the two threads do, the connection gets frames that were sent one by one. -/
theorem wire_writes (host : Host) (socket : Nat) (ws : List Writing) :
    ∃ texts, (exec (writes host socket ws) {}).2.wire = output host texts := by
  have hwrites : Writes host (writes host socket ws) := by
    induction ws with
    | nil => exact writes_pure host ()
    | cons w ws ih =>
      cases w with
      | handler message => exact (writes_handleWebSocketMessage host socket message).bind fun _ => ih
      | delivery texts =>
        refine Writes.bind (fun t => ?_) fun _ => ih
        obtain ⟨t', hexec, hattempts, hwire⟩ := exec_deliver host texts t
        rw [hexec]
        exact ⟨texts, hattempts, hwire⟩
  obtain ⟨texts, -, hwire⟩ := hwrites {}
  refine ⟨texts, ?_⟩
  rw [output_eq]
  exact hwire

/-- **The output is a stream of whole frames exactly when `send` takes nothing more once it has torn a frame**, and
what the two threads write to a connection, messages and events in any order, is such an output. -/
theorem output_whole_iff (host : Host) :
    (∀ texts : List Bytes, WholeFrames host texts ↔
      ∀ m n, m < n → n < texts.length → (host.sends m).Torn → (host.sends n).Silent) ∧
    ∀ (socket : Nat) (ws : List Writing), ∃ texts, (exec (writes host socket ws) {}).2.wire = output host texts :=
  ⟨wholeFrames_iff host, wire_writes host⟩

end

/-- Of the first frame three bytes are taken, and of all others everything. -/
noncomputable def tearingHost : Host :=
  { HandleClient.openHost with sends := fun n => if n = 0 then .fewer 3 else .all }

/-- The second frame begins in the middle of the first. -/
theorem torn_frame_written_over : output tearingHost [str "ab", str "cd"] = [0x81, 2, 97] ++ [0x81, 2, 99, 100] ∧
    (∀ kept : List Bytes, kept.Sublist [str "ab", str "cd"] →
      ¬ output tearingHost [str "ab", str "cd"] <+: kept.flatMap WebSocketFrame.textFrame) ∧
    ¬ WholeFrames tearingHost [str "ab", str "cd"] := by
  have houtput : output tearingHost [str "ab", str "cd"] = [0x81, 2, 97] ++ [0x81, 2, 99, 100] := by
    rw [output_eq]
    rfl
  have hno : ∀ kept ∈ [str "ab", str "cd"].sublists,
      ¬ ([0x81, 2, 97] ++ [0x81, 2, 99, 100] : Bytes) <+: kept.flatMap WebSocketFrame.textFrame := by decide
  have hnone : ∀ kept : List Bytes, kept.Sublist [str "ab", str "cd"] →
      ¬ output tearingHost [str "ab", str "cd"] <+: kept.flatMap WebSocketFrame.textFrame := by
    intro kept hkept
    rw [houtput]
    exact hno kept (List.mem_sublists.2 hkept)
  refine ⟨houtput, hnone, ?_⟩
  rintro ⟨⟨kept, hkept, hprefix⟩, -⟩
  exact hnone kept hkept hprefix

end ClientThread

end OriginDB
