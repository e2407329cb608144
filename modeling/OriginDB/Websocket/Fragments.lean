import OriginDB.Websocket.Segmentation
/-!
# Messages in fragments (`websocket_server.cpp:251-269, 445-513`)

RFC 6455 lets a client send a text in a first frame without FIN, continuation frames (opcode 0), the last with FIN, and
pings and pongs between them. `ParseWebSocketFrame` looks at FIN and forgets it, and leaves every frame alone that has
not opcode 1: what is handed over is the first fragment (`handed_fragments`).
-/
namespace OriginDB

open JsonDoc ByteCodec Throwing

namespace WebSocketFrame

/-- A frame of a client, its payload within what a `std::string` holds. -/
structure RawFrame where
  first : UInt8
  mask : Mask
  payload : { p : Bytes // p.length < 2 ^ 63 }

def RawFrame.bytes (f : RawFrame) : Bytes := frame f.first (some f.mask) f.payload.1

/-- The bytes of frames behind each other. -/
def wire (fs : List RawFrame) : Bytes := fs.flatMap RawFrame.bytes

/-- A ping or a pong: FIN set, and at most 125 bytes. -/
structure Control where
  pong : Bool
  mask : Mask
  payload : { p : Bytes // p.length ≤ 125 }

structure Fragment where
  mask : Mask
  payload : { p : Bytes // p.length < 2 ^ 63 }

/-- A text as RFC 6455 5.4 lets it be sent; each fragment after the first has the control frames sent before it. -/
structure FragmentedMessage where
  first : Fragment
  middle : List (List Control × Fragment)
  last : List Control × Fragment

def Control.frame (c : Control) : RawFrame where
  first := if c.pong then 0x8a else 0x89
  mask := c.mask
  payload := ⟨c.payload.1, c.payload.2.trans_lt (by decide)⟩

def Fragment.frame (f : Fragment) (first : UInt8) : RawFrame := { first, mask := f.mask, payload := f.payload }

namespace FragmentedMessage

variable (m : FragmentedMessage)

/-- The fragments after the first. -/
def continuations : List Fragment := m.middle.map Prod.snd ++ [m.last.2]

def text : Bytes := m.first.payload.1 ++ m.continuations.flatMap fun f => f.payload.1

/-- What comes after the first frame: opcode 0, FIN in the last one only. -/
def framesAfter : List RawFrame :=
  (m.middle.flatMap fun p => p.1.map Control.frame ++ [p.2.frame 0x00]) ++ m.last.1.map Control.frame ++ [m.last.2.frame 0x80]

/-- Opcode 1 and no FIN, and the other frames. -/
def frames : List RawFrame := m.first.frame 0x01 :: m.framesAfter

end FragmentedMessage

/-! ## Frames behind each other -/

section
variable {f : RawFrame} {fs : List RawFrame}

theorem ready_wire (f : RawFrame) (rest : Bytes) : frames.Ready (f.bytes ++ rest) f.bytes.length :=
  ⟨exactSize_frame f.first (some f.mask) f.payload.2 rest, by simp⟩

/-- A stream of frames is cut into them. -/
theorem cuts_wire (h : ∀ f ∈ fs, f.first &&& 0x0f ≠ 8) : frames.Cuts Closes (wire fs) (fs.map RawFrame.bytes) [] false := by
  induction fs with
  | nil =>
    refine Delimiter.Cuts.short fun n hready => ?_
    cases hready.1
  | cons f fs ih =>
    have hready : frames.Ready (wire (f :: fs)) f.bytes.length := ready_wire f (wire fs)
    have htake : (wire (f :: fs)).take f.bytes.length = f.bytes := List.take_left
    have hdrop : (wire (f :: fs)).drop f.bytes.length = wire fs := List.drop_left
    have hopen : ¬ Closes f.bytes := by
      intro hclose
      have hopcode : opcode f.bytes = 8 := hclose
      rw [RawFrame.bytes, opcode_frame] at hopcode
      exact h f List.mem_cons_self hopcode
    have hrest := ih fun g hg => h g (List.mem_cons_of_mem f hg)
    rw [List.map_cons, ← htake]
    exact Delimiter.Cuts.item hready (by rwa [htake]) (by rwa [hdrop])

theorem within_wire {limit : Nat} (h : ∀ f ∈ fs, f.bytes.length ≤ limit) : frames.Within limit (wire fs) := by
  induction fs with
  | nil => exact Delimiter.Within.short (fun n hready => by cases hready.1) fun n hn => by cases hn
  | cons f fs ih =>
    refine Delimiter.Within.item (ready_wire f (wire fs)) (h f List.mem_cons_self) ?_
    have hdrop : (wire (f :: fs)).drop f.bytes.length = wire fs := List.drop_left
    rw [hdrop]
    exact ih fun g hg => h g (List.mem_cons_of_mem f hg)

theorem unwrapped_wire (fs : List RawFrame) : HandleClient.Unwrapped (wire fs) := by
  apply within_wire
  intro f _
  have hheader := headerSize_le (some f.mask) f.payload.1
  have hpayload := f.payload.2
  rw [RawFrame.bytes, length_frame]
  omega

theorem messageOf_bytes (f : RawFrame) :
    messageOf f.bytes = if f.first &&& 0x0f = 1 ∧ f.payload.1 ≠ [] then some f.payload.1 else none := by
  unfold messageOf RawFrame.bytes
  rw [parse_frame f.first (some f.mask) f.payload.2]
  by_cases hopcode : f.first &&& 0x0f = 1
  · by_cases hempty : f.payload.1 = []
    · simp [hempty]
    · simp [hopcode, hempty]
  · simp [hopcode]

end

/-! ## The fragments -/

namespace FragmentedMessage

variable (m : FragmentedMessage)

/-- No other frame is a text frame or a close frame. -/
theorem framesAfter_opcode : ∀ f ∈ m.framesAfter, f.first &&& 0x0f ≠ 1 ∧ f.first &&& 0x0f ≠ 8 := by
  have hcontrol : ∀ cs : List Control, ∀ f ∈ cs.map Control.frame, f.first &&& 0x0f ≠ 1 ∧ f.first &&& 0x0f ≠ 8 := by
    intro cs f hf
    obtain ⟨c, -, rfl⟩ := List.mem_map.1 hf
    have hfirst : c.frame.first = 0x8a ∨ c.frame.first = 0x89 := by
      unfold Control.frame
      cases c.pong <;> simp
    rcases hfirst with h | h <;> rw [h] <;> decide
  intro f hf
  unfold framesAfter at hf
  rcases List.mem_append.1 hf with hf | hf
  · rcases List.mem_append.1 hf with hf | hf
    · obtain ⟨p, -, hp⟩ := List.mem_flatMap.1 hf
      rcases List.mem_append.1 hp with hp | hp
      · exact hcontrol p.1 f hp
      · have hfirst : f.first = 0x00 := by rw [List.mem_singleton.1 hp, Fragment.frame]
        rw [hfirst]
        decide
    · exact hcontrol m.last.1 f hf
  · have hfirst : f.first = 0x80 := by rw [List.mem_singleton.1 hf, Fragment.frame]
    rw [hfirst]
    decide

theorem frames_open : ∀ f ∈ m.frames, f.first &&& 0x0f ≠ 8 := by
  intro f hf
  rcases List.mem_cons.1 hf with h | hf
  · have hfirst : f.first = 0x01 := by rw [h, Fragment.frame]
    rw [hfirst]
    decide
  · exact (m.framesAfter_opcode f hf).2

/-- The first fragment is all that is handed over. -/
theorem messages_frames : (m.frames.map RawFrame.bytes).filterMap messageOf =
    if m.first.payload.1 = [] then [] else [m.first.payload.1] := by
  have hafter : (m.framesAfter.map RawFrame.bytes).filterMap messageOf = [] := by
    rw [List.filterMap_eq_nil_iff]
    intro b hb
    obtain ⟨f, hf, rfl⟩ := List.mem_map.1 hb
    rw [messageOf_bytes, if_neg fun h => (m.framesAfter_opcode f hf).1 h.1]
  have hfirst : messageOf (m.first.frame 0x01).bytes = if m.first.payload.1 = [] then none else some m.first.payload.1 := by
    rw [messageOf_bytes]
    by_cases hempty : m.first.payload.1 = []
    · rw [if_pos hempty, if_neg fun h => h.2 hempty]
    · rw [if_neg hempty, if_pos ⟨(by decide : (0x01 : UInt8) &&& 0x0f = 1), hempty⟩]
      rfl
  rw [frames, List.map_cons, List.filterMap_cons, hfirst, hafter]
  by_cases hempty : m.first.payload.1 = []
  · rw [if_pos hempty, if_pos hempty]
  · rw [if_neg hempty, if_neg hempty]

/-- The first fragment is the text when there is some in it and none in the others. -/
theorem first_eq_text_iff : (if m.first.payload.1 = [] then [] else [m.first.payload.1]) = [m.text] ↔
    m.first.payload.1 ≠ [] ∧ ∀ f ∈ m.continuations, f.payload.1 = [] := by
  have htext : m.first.payload.1 = m.text ↔ ∀ f ∈ m.continuations, f.payload.1 = [] := by
    rw [text, List.self_eq_append_right, List.flatMap_eq_nil_iff]
  by_cases hempty : m.first.payload.1 = []
  · simp [hempty]
  · simp only [hempty, if_false, List.cons.injEq, and_true, ne_eq, not_false_eq_true, true_and]
    exact htext

end FragmentedMessage

end WebSocketFrame

namespace HandleClient

open WebSocketFrame

section
variable {host : Host} {socket : Nat} {t : ClientThread} {m : FragmentedMessage}

/-- **The loop hands over the first fragment.** -/
theorem handed_fragments
    (hreturn : HandlersReturn host socket (drainRounds host socket (wire m.frames).length (wire m.frames) t)) :
    handed (drainRounds host socket (wire m.frames).length (wire m.frames) t) =
      if m.first.payload.1 = [] then [] else [m.first.payload.1] := by
  obtain ⟨rest, closed, t', -, hcuts, -⟩ := cuts_drainRounds _ (unwrapped_wire m.frames) (Nat.le_refl _) hreturn
  obtain ⟨hframes, -, -⟩ := hcuts.unique (cuts_wire m.frames_open)
  rw [handed, hframes, m.messages_frames]

/-- And so does a connection, however the frames come in. -/
theorem handed_fragments_rounds {events : List ConnectionEvent} (hsmall : ∀ f ∈ m.frames, f.bytes.length ≤ 16 * 1024 * 1024)
    (hsegments : Segments (wire m.frames) events) (hreturn : HandlersReturn host socket (rounds host socket [] events t)) :
    handed (rounds host socket [] events t) = if m.first.payload.1 = [] then [] else [m.first.payload.1] := by
  obtain ⟨rest, closed, -, -, hcuts, -⟩ := cuts_rounds (within_wire hsmall) hsegments hreturn
  obtain ⟨hframes, -, -⟩ := hcuts.unique (cuts_wire m.frames_open)
  rw [handed, hframes, m.messages_frames]

/-- **A fragmented text is handed over as it is exactly when all of it is in the first fragment**: by the loop, once its
frames are there, and by a connection that gets them in any chunks. What is handed over is what `HandleWebSocketMessage` is called with. -/
theorem fragments_reassembled_iff
    (hreturn : HandlersReturn host socket (drainRounds host socket (wire m.frames).length (wire m.frames) t)) :
    (handed (drainRounds host socket (wire m.frames).length (wire m.frames) t) = [m.text] ↔
      m.first.payload.1 ≠ [] ∧ ∀ f ∈ m.continuations, f.payload.1 = []) ∧
    (exec (drain host socket (wire m.frames).length (wire m.frames)) t).2.messages =
      t.messages ++ handed (drainRounds host socket (wire m.frames).length (wire m.frames) t) ∧
    ∀ events, (∀ f ∈ m.frames, f.bytes.length ≤ 16 * 1024 * 1024) → Segments (wire m.frames) events →
      HandlersReturn host socket (rounds host socket [] events t) →
      (handed (rounds host socket [] events t) = [m.text] ↔
        m.first.payload.1 ≠ [] ∧ ∀ f ∈ m.continuations, f.payload.1 = []) ∧
      (exec (receive host socket [] events) t).2.messages = t.messages ++ handed (rounds host socket [] events t) := by
  refine ⟨?_, ?_, fun events hsmall hsegments hreturn => ⟨?_, ?_⟩⟩
  · rw [handed_fragments hreturn, m.first_eq_text_iff]
  · obtain ⟨rest, closed, t', hexec, -, hmessages⟩ := cuts_drainRounds _ (unwrapped_wire m.frames) (Nat.le_refl _) hreturn
    rwa [hexec]
  · rw [handed_fragments_rounds hsmall hsegments hreturn, m.first_eq_text_iff]
  · obtain ⟨rest, closed, t', hexec, -, hmessages⟩ := cuts_rounds (within_wire hsmall) hsegments hreturn
    rwa [hexec]

end

/-- A text in two fragments, with a ping between them. -/
def twoFragments (first second : { p : Bytes // p.length < 2 ^ 63 }) : FragmentedMessage where
  first := ⟨⟨[4, 3, 2, 1], rfl⟩, first⟩
  middle := []
  last := ([⟨false, ⟨[0, 0, 0, 0], rfl⟩, ⟨[], by decide⟩⟩], ⟨⟨[5, 6, 7, 8], rfl⟩, second⟩)

theorem returns_drainRounds (pending : Bytes) : HandlersReturn openHost 7 (drainRounds openHost 7 pending.length pending {}) :=
  handlersReturn_openHost rfl (clientId_drainRounds _)

theorem fragments_reassembled_all_in_first :
    handed (drainRounds openHost 7 (wire (twoFragments ⟨str "ab", by decide⟩ ⟨[], by decide⟩).frames).length
      (wire (twoFragments ⟨str "ab", by decide⟩ ⟨[], by decide⟩).frames) {}) = [str "ab"] :=
  (fragments_reassembled_iff (returns_drainRounds _)).1.2 ⟨by decide, by decide⟩

theorem fragments_lost :
    handed (drainRounds openHost 7 (wire (twoFragments ⟨str "a", by decide⟩ ⟨str "b", by decide⟩).frames).length
      (wire (twoFragments ⟨str "a", by decide⟩ ⟨str "b", by decide⟩).frames) {}) = [str "a"] ∧
    (twoFragments ⟨str "a", by decide⟩ ⟨str "b", by decide⟩).text = str "ab" :=
  ⟨handed_fragments (returns_drainRounds _), rfl⟩

end HandleClient

end OriginDB
