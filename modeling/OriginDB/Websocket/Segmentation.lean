import OriginDB.Websocket.FrameCodec
/-!
# Frames and the chunks they come in (`websocket_server.cpp:238-276`)

TCP cuts the stream of a client into chunks as it likes. What the loop cuts off is the stream's own frames, up to the
first close frame: `framesCut` of a run, in which other connections may take steps between two `recv` and the handlers
may do anything but throw, is `Delimiter.Cuts` of the whole stream (`cuts_rounds`), and what `HandleWebSocketMessage` has on record
at the end is the messages of these frames. The buffer outgrows its 16 MiB only if a frame does.
-/
namespace OriginDB

open JsonDoc ByteCodec Throwing

namespace WebSocketFrame

/-- The stream of a client is one of frames, each of which says its exact size. -/
def frames : Delimiter UInt8 where
  size := exactSize
  pos := by
    intro l n h
    obtain ⟨headerSize, payloadLength, hexact, rfl⟩ := exactSize_some h
    have := exactHeader_bounds hexact
    omega
  stable := by
    intro l n r h
    obtain ⟨headerSize, payloadLength, hexact, rfl⟩ := exactSize_some h
    rw [exactHeader_eq] at hexact
    obtain ⟨p, hheader, hp⟩ := Option.map_eq_some_iff.1 hexact
    have htake : header ((l ++ r).take l.length) = some p := by rwa [List.take_left]
    rw [exactSize, exactHeader_eq, header_of_take htake, Option.map_some, hp]
    rfl

/-- The frame at the front, if the loop cuts one off. -/
def cutFrame (pending : Bytes) : Option Bytes :=
  if Accepts pending then some (pending.take (completeFrameSize pending).toNat) else none

/-- A close frame. -/
def Closes (frame : Bytes) : Prop := opcode frame = 8

instance (frame : Bytes) : Decidable (Closes frame) := inferInstanceAs (Decidable (_ = _))

/-- What of a frame is handed to `HandleWebSocketMessage`. -/
def messageOf (frame : Bytes) : Option Bytes :=
  match parseWebSocketFrame frame with
  | .ok message => if message = [] then none else some message
  | .error _ => none

end WebSocketFrame

namespace HandleClient

open WebSocketFrame

section
variable (host : Host) (socket : Nat)

/-- The frames cut off in some rounds. -/
def framesCut (rounds : List (ClientThread × Bytes)) : List Bytes := rounds.filterMap fun p => cutFrame p.2

/-- The messages handed to `HandleWebSocketMessage` in them. -/
def handed (rounds : List (ClientThread × Bytes)) : List Bytes := (framesCut rounds).filterMap messageOf

/-- How many frames came before the close frame, if there was one. -/
def closedAt (rounds : List (ClientThread × Bytes)) : Option Nat := (framesCut rounds).findIdx? fun frame => decide (Closes frame)

/-- In these rounds the handlers of messages return. -/
def HandlersReturn (rounds : List (ClientThread × Bytes)) : Prop :=
  ∀ p ∈ rounds, ∀ message, (cutFrame p.2).bind messageOf = some message →
    ¬ throws (dispatch host socket message) p.1

/-- What `recv` got. -/
def chunks (events : List ConnectionEvent) : List Bytes :=
  events.filterMap fun event => match event with
    | .bytes b => some b
    | .others _ => none

/-- A way of cutting the stream into what `recv` can get: its buffer has 4096 bytes. -/
structure Segments (stream : Bytes) (events : List ConnectionEvent) : Prop where
  whole : (chunks events).flatten = stream
  chunk_length : ∀ chunk ∈ chunks events, 1 ≤ chunk.length ∧ chunk.length ≤ 4096

end

section
variable {host : Host} {socket : Nat} {pending : Bytes} {t : ClientThread}

/-- No frame makes the buffer outgrow its bound. -/
abbrev Small (stream : Bytes) : Prop := frames.Within (16 * 1024 * 1024) stream

/-- No size wraps around. -/
abbrev Unwrapped (stream : Bytes) : Prop := frames.Within (2 ^ 64 - 1) stream

/-! ## One round -/

theorem size_lt (h : Unwrapped pending) {n : Nat} (hn : exactSize pending = some n) : n < 2 ^ 64 := by
  have hle := h pending n (Delimiter.Begins.here pending) hn
  omega

/-- The loop waits for no more than the frame itself. -/
theorem ready_iff (h : Unwrapped pending) (n : Nat) :
    frames.Ready pending n ↔ Accepts pending ∧ n = (completeFrameSize pending).toNat := by
  rw [accepts_iff, toNat_completeFrameSize]
  constructor
  · rintro ⟨hsize, hle⟩
    have hpos := frames.pos hsize
    have hmod : n % 2 ^ 64 = n := Nat.mod_eq_of_lt (size_lt h hsize)
    have hexact : exactSize pending = some n := hsize
    refine ⟨⟨n, hexact, by omega, by omega⟩, ?_⟩
    rw [hexact, Option.getD_some, hmod]
  · rintro ⟨⟨s, hs, hpos, hle⟩, rfl⟩
    have hmod : s % 2 ^ 64 = s := Nat.mod_eq_of_lt (size_lt h hs)
    rw [hs, Option.getD_some, hmod]
    exact ⟨hs, by omega⟩

theorem messages_dispatch {message : Bytes} {t' : ClientThread} (h : exec (dispatch host socket message) t = (.ok (), t')) :
    t'.messages = t.messages ++ [message] := by
  rw [dispatch, exec_bind_ok (exec_get t)] at h
  split at h
  · obtain ⟨server, hhandles, -⟩ := ClientThread.leaves_handleWebSocketMessage host socket message t
    have hmessages := hhandles.messages
    rwa [h] at hmessages
  · cases (Prod.mk.inj h).1

theorem messageOf_of_closes {frame : Bytes} (h : Closes frame) : messageOf frame = none := by
  have hopcode : opcode frame ≠ 1 := by
    rw [show opcode frame = 8 from h]
    decide
  simp [messageOf, parseWebSocketFrame, hopcode]

/-- **What a round does**: nothing, the end, or a call with the message of the next frame, if it has one. -/
theorem exec_round (h : Unwrapped pending)
    (hreturns : ∀ message, (cutFrame pending).bind messageOf = some message → ¬ throws (dispatch host socket message) t) :
    if Accepts pending then
      if Closes (pending.take (completeFrameSize pending).toNat) then
        exec (round host socket pending) t = (.ok (.closed (pending.drop (completeFrameSize pending).toNat)), t)
      else ∃ t', exec (round host socket pending) t = (.ok (.handled (pending.drop (completeFrameSize pending).toNat)), t') ∧
        t'.messages = t.messages ++ (messageOf (pending.take (completeFrameSize pending).toNat)).toList
    else exec (round host socket pending) t = (.ok .incomplete, t) := by
  have haccepts : (completeFrameSize pending = 0 ∨ pending.length < (completeFrameSize pending).toNat) ↔ ¬ Accepts pending := by
    rw [Accepts, not_and_or, not_not, not_le]
  by_cases haccept : Accepts pending
  · have hready := (ready_iff h _).2 ⟨haccept, rfl⟩
    obtain ⟨message, hparse⟩ := parse_ok_of_exact hready.1 hready.2 (size_lt h hready.1)
    rw [if_pos haccept]
    unfold round
    simp only [haccepts, not_not.2 haccept, if_false]
    by_cases hclose : Closes (pending.take (completeFrameSize pending).toNat)
    · have hopcode : opcode (pending.take (completeFrameSize pending).toNat) = 8 := hclose
      rw [if_pos hclose, if_pos hopcode, exec_pure]
    · have hopcode : ¬ opcode (pending.take (completeFrameSize pending).toNat) = 8 := hclose
      rw [if_neg hclose, if_neg hopcode, hparse]
      by_cases hempty : message = []
      · exact ⟨t, by simp [hempty], by simp [messageOf, hparse, hempty]⟩
      · have hof : messageOf (pending.take (completeFrameSize pending).toNat) = some message := by
          simp [messageOf, hparse, hempty]
        have hmessage : (cutFrame pending).bind messageOf = some message := by
          rw [cutFrame, if_pos haccept, Option.bind_some, hof]
        obtain ⟨⟨⟩, t', hexec⟩ := not_throws_iff.1 (hreturns message hmessage)
        refine ⟨t', ?_, ?_⟩
        · simp only [hempty, ne_eq, not_false_eq_true, if_true]
          rw [exec_bind_ok hexec, exec_pure]
        · rw [messages_dispatch hexec, hof, Option.toList_some]
  · rw [if_neg haccept]
    unfold round
    simp only [haccepts, haccept, not_false_eq_true, if_true, exec_pure]

/-! ## The rounds on what is there -/

/-- **What is there is cut into its frames**, and the calls are made with their messages. -/
theorem cuts_drainRounds (fuel : Nat) (h : Unwrapped pending) (hfuel : pending.length ≤ fuel)
    (hreturn : HandlersReturn host socket (drainRounds host socket fuel pending t)) :
    ∃ rest closed t', exec (drain host socket fuel pending) t = (.ok (rest, closed), t') ∧
      frames.Cuts Closes pending (framesCut (drainRounds host socket fuel pending t)) rest closed ∧
      t'.messages = t.messages ++ handed (drainRounds host socket fuel pending t) := by
  induction fuel generalizing pending t with
  | zero =>
    rw [List.eq_nil_of_length_eq_zero (Nat.le_zero.1 hfuel)]
    refine ⟨[], false, t, rfl, Delimiter.Cuts.short fun n hready => ?_, (List.append_nil _).symm⟩
    have hpos := frames.pos hready.1
    have hle := hready.2
    rw [List.length_nil] at hle
    omega
  | succ fuel ih =>
    have hround := exec_round h fun message hmessage => hreturn (t, pending) List.mem_cons_self message hmessage
    have hready := ready_iff h
    unfold HandlersReturn at hreturn
    rw [drainRounds] at hreturn ⊢
    rw [drain]
    by_cases haccept : Accepts pending
    · have hfirst := (hready _).2 ⟨haccept, rfl⟩
      have hcut : cutFrame pending = some (pending.take (completeFrameSize pending).toNat) := if_pos haccept
      rw [if_pos haccept] at hround
      by_cases hclose : Closes (pending.take (completeFrameSize pending).toNat)
      · rw [if_pos hclose] at hround
        have hframes : framesCut [(t, pending)] = [pending.take (completeFrameSize pending).toNat] := by
          simp [framesCut, hcut]
        have hhanded : handed [(t, pending)] = [] := by rw [handed, hframes, List.filterMap_cons, messageOf_of_closes hclose, List.filterMap_nil]
        rw [hround]
        simp only
        rw [hframes, hhanded, List.append_nil]
        exact ⟨_, true, t, by rw [exec_bind_ok hround]; rfl, Delimiter.Cuts.stop hfirst hclose, rfl⟩
      · rw [if_neg hclose] at hround
        obtain ⟨t', hround, hmessages⟩ := hround
        rw [hround] at hreturn ⊢
        simp only at hreturn ⊢
        have hrest := h.of_begins (Delimiter.Begins.after hfirst (Delimiter.Begins.here _))
        have hshorter := hfirst.length_drop
        obtain ⟨rest, closed, t'', hexec, hcuts, hmessages'⟩ :=
          ih hrest (by omega) fun p hp => hreturn p (List.mem_cons_of_mem _ hp)
        have hframes : framesCut ((t, pending) :: drainRounds host socket fuel (pending.drop (completeFrameSize pending).toNat) t') =
            pending.take (completeFrameSize pending).toNat ::
              framesCut (drainRounds host socket fuel (pending.drop (completeFrameSize pending).toNat) t') := by
          simp [framesCut, hcut]
        refine ⟨rest, closed, t'', by rw [exec_bind_ok hround]; exact hexec, ?_, ?_⟩
        · rw [hframes]
          exact Delimiter.Cuts.item hfirst hclose hcuts
        · rw [hmessages', hmessages, handed, handed, hframes, List.append_assoc, List.filterMap_cons]
          cases messageOf (pending.take (completeFrameSize pending).toNat) <;> rfl
    · rw [if_neg haccept] at hround
      have hcut : cutFrame pending = none := if_neg haccept
      have hframes : framesCut [(t, pending)] = [] := by simp [framesCut, hcut]
      rw [hround]
      simp only
      rw [handed, hframes, List.filterMap_nil, List.append_nil]
      exact ⟨pending, false, t, by rw [exec_bind_ok hround]; rfl, Delimiter.Cuts.short fun n hn => haccept ((hready n).1 hn).1, rfl⟩

/-! ## The rounds of a connection -/

/-- A step of another connection is no call of this one. -/
theorem messages_others (l : WebSocketServer.Label) : (others host socket t l).messages = t.messages := by
  unfold others
  split <;> rfl

/-- What waits for the rest of its frame is less than the bound. -/
theorem length_rest_le (h : Small pending) (hshort : ∀ n, ¬ frames.Ready pending n) : pending.length ≤ 16 * 1024 * 1024 := by
  cases hsize : exactSize pending with
  | none =>
    by_contra hlong
    have hheader : exactHeader pending = none := by simpa [exactSize] using hsize
    unfold exactHeader at hheader
    simp only [if_neg (show ¬ pending.length < 2 by omega), if_neg (show ¬ pending.length < 4 by omega),
      if_neg (show ¬ pending.length < 10 by omega)] at hheader
    split at hheader
    · cases hheader
    · split at hheader <;> cases hheader
  | some n =>
    have hle := h pending n (Delimiter.Begins.here pending) hsize
    have hpartial : ¬ n ≤ pending.length := fun hn => hshort n ⟨hsize, hn⟩
    omega

/-- **The chunks are cut into the frames of the stream.** -/
theorem feeds_rounds (events : List ConnectionEvent) (h : Small (pending ++ (chunks events).flatten))
    (hchunks : ∀ chunk ∈ chunks events, chunk ≠ [])
    (hreturn : HandlersReturn host socket (rounds host socket pending events t)) :
    ∃ closed t', exec (receive host socket pending events) t = (.ok (), t') ∧
      frames.Feeds Closes pending (chunks events) (framesCut (rounds host socket pending events t)) closed ∧
      t'.messages = t.messages ++ handed (rounds host socket pending events t) := by
  induction events generalizing pending t with
  | nil => exact ⟨false, t, rfl, Delimiter.Feeds.done pending, (List.append_nil _).symm⟩
  | cons event events ih =>
    cases event with
    | others l =>
      obtain ⟨closed, t', hexec, hfeeds, hmessages⟩ := ih h hchunks hreturn
      rw [messages_others] at hmessages
      exact ⟨closed, t', (exec_bind_ok (exec_modify t _) _).trans hexec, hfeeds, hmessages⟩
    | bytes b =>
      have hb : b ≠ [] := hchunks b List.mem_cons_self
      have hchunks' : ∀ chunk ∈ chunks events, chunk ≠ [] := fun chunk hchunk => hchunks chunk (List.mem_cons_of_mem b hchunk)
      have hwhole : Small ((pending ++ b) ++ (chunks events).flatten) := by
        have hflatten : (chunks (ConnectionEvent.bytes b :: events)).flatten = b ++ (chunks events).flatten := rfl
        rwa [hflatten, ← List.append_assoc] at h
      unfold HandlersReturn at hreturn
      rw [rounds, if_neg hb] at hreturn ⊢
      rw [receive, if_neg hb]
      have hreturn' : HandlersReturn host socket (drainRounds host socket (pending ++ b).length (pending ++ b) t) :=
        fun p hp => hreturn p (List.mem_append_left _ hp)
      obtain ⟨rest, closed, t', hexec, hcuts, hmessages⟩ :=
        cuts_drainRounds _ (hwhole.of_append.mono (by omega)) (Nat.le_refl _) hreturn'
      rw [exec_bind_ok hexec]
      rw [hexec] at hreturn ⊢
      simp only at hreturn ⊢
      cases closed with
      | true =>
        rw [if_pos (Or.inl rfl), if_pos (Or.inl rfl), List.append_nil]
        exact ⟨true, t', rfl, Delimiter.Feeds.stop hcuts, hmessages⟩
      | false =>
        have hbound := length_rest_le (hwhole.of_append.of_begins hcuts.begins) hcuts.rest_short
        have hgoes : ¬ (false = true ∨ 16 * 1024 * 1024 < rest.length) := by
          simp
          omega
        rw [if_neg hgoes] at hreturn
        rw [if_neg hgoes, if_neg hgoes]
        obtain ⟨closed, t'', hexec', hfeeds, hmessages'⟩ := ih (hwhole.of_begins (hcuts.begins.append _)) hchunks'
          fun p hp => hreturn p (List.mem_append_right _ hp)
        have hframes : framesCut (drainRounds host socket (pending ++ b).length (pending ++ b) t ++ rounds host socket rest events t') =
            framesCut (drainRounds host socket (pending ++ b).length (pending ++ b) t) ++
              framesCut (rounds host socket rest events t') := List.filterMap_append
        refine ⟨closed, t'', hexec', ?_, ?_⟩
        · rw [hframes]
          exact Delimiter.Feeds.more hcuts hfeeds
        · rw [hmessages', hmessages, handed, handed, handed, hframes, List.filterMap_append, List.append_assoc]

/-- The frames cut off in a run are those of its stream. -/
theorem cuts_rounds {stream : Bytes} {events : List ConnectionEvent} (h : Small stream) (hsegments : Segments stream events)
    (hreturn : HandlersReturn host socket (rounds host socket [] events t)) :
    ∃ rest closed t', exec (receive host socket [] events) t = (.ok (), t') ∧
      frames.Cuts Closes stream (framesCut (rounds host socket [] events t)) rest closed ∧
      t'.messages = t.messages ++ handed (rounds host socket [] events t) := by
  obtain ⟨rfl, hlength⟩ := hsegments
  have hchunks : ∀ chunk ∈ chunks events, chunk ≠ [] := by
    rintro chunk hchunk rfl
    have := (hlength [] hchunk).1
    simp at this
  obtain ⟨closed, t', hexec, hfeeds, hmessages⟩ := feeds_rounds events (by simpa using h) hchunks hreturn
  obtain ⟨rest, hcuts⟩ := hfeeds.cuts fun n hready => by
    have hpos := frames.pos hready.1
    have hle := hready.2
    rw [List.length_nil] at hle
    omega
  exact ⟨rest, closed, t', hexec, by simpa using hcuts, hmessages⟩

/-- **What is handed over, and where the connection is closed, does not depend on how the stream came in.** It is what
`HandleWebSocketMessage` is called with in the run. -/
theorem dispatch_ignores_segments {stream : Bytes} {events events' : List ConnectionEvent} {t t' : ClientThread}
    (h : Small stream) (hsegments : Segments stream events) (hsegments' : Segments stream events')
    (hreturn : HandlersReturn host socket (rounds host socket [] events t))
    (hreturn' : HandlersReturn host socket (rounds host socket [] events' t')) :
    handed (rounds host socket [] events t) = handed (rounds host socket [] events' t') ∧
      closedAt (rounds host socket [] events t) = closedAt (rounds host socket [] events' t') ∧
      (exec (receive host socket [] events) t).2.messages = t.messages ++ handed (rounds host socket [] events t) := by
  obtain ⟨rest, closed, last, hexec, hcuts, hmessages⟩ := cuts_rounds h hsegments hreturn
  obtain ⟨rest', closed', -, -, hcuts', -⟩ := cuts_rounds h hsegments' hreturn'
  obtain ⟨hframes, -, -⟩ := hcuts.unique hcuts'
  refine ⟨?_, ?_, by rw [hexec]; exact hmessages⟩
  · unfold handed
    rw [hframes]
  · unfold closedAt
    rw [hframes]

/-! ## Handlers that return -/

theorem clientId_drainRounds (fuel : Nat) : ∀ p ∈ drainRounds host socket fuel pending t,
    p.1.server.clientId socket = t.server.clientId socket := by
  induction fuel generalizing pending t with
  | zero =>
    intro p hp
    cases hp
  | succ fuel ih =>
    intro p hp
    have hkept := kept_round host socket pending t
    rw [drainRounds] at hp
    rcases List.mem_cons.1 hp with rfl | hp
    · rfl
    · rcases hexec : exec (round host socket pending) t with ⟨e | r, t'⟩
      · rw [hexec] at hp
        cases hp
      · rw [hexec] at hp hkept
        cases r with
        | incomplete => cases hp
        | closed rest => cases hp
        | handled rest => exact (ih p hp).trans hkept.clientId

theorem clientId_rounds (events : List ConnectionEvent) : ∀ p ∈ rounds host socket pending events t,
    p.1.server.clientId socket = t.server.clientId socket := by
  induction events generalizing pending t with
  | nil =>
    intro p hp
    cases hp
  | cons event events ih =>
    intro p hp
    cases event with
    | others l => exact (ih p hp).trans (kept_others l).clientId
    | bytes b =>
      rw [rounds] at hp
      split at hp
      · cases hp
      · rcases List.mem_append.1 hp with hp | hp
        · exact clientId_drainRounds _ p hp
        · have hkept := kept_drain host socket (pending ++ b).length (pending ++ b) t
          rcases hexec : exec (drain host socket (pending ++ b).length (pending ++ b)) t with ⟨e | ⟨rest, closed⟩, t'⟩
          · rw [hexec] at hp
            cases hp
          · rw [hexec] at hp hkept
            simp only at hp
            split at hp
            · cases hp
            · exact (ih p hp).trans hkept.clientId

/-- A handler returns when the stack holds and every send succeeds. -/
theorem returns_of_delivers (hs : host.Sound) (hdelivers : ∀ n, host.delivers n = true) (hstack : ∀ n message, host.stackHolds n message = true)
    (hparse : ∀ message, Utf8 (host.parseError message)) (hclient : Utf8 (t.server.clientId socket)) (message : Bytes) :
    ¬ throws (dispatch host socket message) t := by
  rw [throws_dispatch hs hclient message, not_not]
  refine ⟨hstack _ _, ?_⟩
  unfold ClientThread.triesOf
  split
  · rw [if_pos (hparse message), Tries.lost_one, hdelivers]
    simp
  · rw [Tries.lost_reported, hdelivers]
    simp

end

theorem handlersReturn_openHost {t : ClientThread} (hclient : t.server.clientId 7 = []) {rounds : List (ClientThread × Bytes)}
    (hrounds : ∀ p ∈ rounds, p.1.server.clientId 7 = t.server.clientId 7) : HandlersReturn openHost 7 rounds := by
  intro p hp message _
  refine returns_of_delivers sound_openHost (fun _ => rfl) (fun _ _ => rfl) (fun _ => utf8_str _) ?_ message
  rw [hrounds p hp, hclient]
  decide

/-- A text frame of one byte, a ping and a close frame. -/
def pingedStream : Bytes := frame 0x81 (some ⟨[1, 2, 3, 4], rfl⟩) (str "x") ++ [0x89, 0x80, 1, 2, 3, 4] ++ closeFrame

theorem small_pingedStream : Small pingedStream := by
  refine Delimiter.Within.item (n := 7) ⟨by decide, by decide⟩ (by decide) ?_
  refine Delimiter.Within.item (n := 6) ⟨by decide, by decide⟩ (by decide) ?_
  refine Delimiter.Within.item (n := 6) ⟨by decide, by decide⟩ (by decide) ?_
  exact Delimiter.Within.short (fun n hn => by cases hn.1) fun n hn => by cases hn

/-- All at once, and byte by byte. -/
theorem dispatch_ignores_segments_bytewise :
    handed (rounds openHost 7 [] [.bytes pingedStream] {}) =
        handed (rounds openHost 7 [] (pingedStream.map fun b => .bytes [b]) {}) ∧
      closedAt (rounds openHost 7 [] [.bytes pingedStream] {}) =
        closedAt (rounds openHost 7 [] (pingedStream.map fun b => .bytes [b]) {}) ∧
      (exec (receive openHost 7 [] [.bytes pingedStream]) {}).2.messages = [] ++ handed (rounds openHost 7 [] [.bytes pingedStream] {}) := by
  have hreturn (events : List ConnectionEvent) : HandlersReturn openHost 7 (rounds openHost 7 [] events {}) :=
    handlersReturn_openHost rfl (clientId_rounds events)
  exact dispatch_ignores_segments small_pingedStream ⟨rfl, by decide⟩ ⟨rfl, by decide⟩ (hreturn _) (hreturn _)

end HandleClient

end OriginDB
