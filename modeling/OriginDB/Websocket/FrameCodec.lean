import OriginDB.Websocket.Slicing
/-!
# Frames that are built and frames that are cut off (`websocket_server.cpp:414-443`, `ws_filter_check.py:39-51`)

The server builds its frames without a mask, a client with one; both write the length in one, three or nine bytes. A
frame says its own length whatever follows it (`exactHeader_frame`), so frames written behind each other are cut off
one by one and parsed to the messages they were built for.
-/
namespace OriginDB

open ByteCodec

namespace WebSocketFrame

/-! ## Building -/

/-- A masking key. -/
abbrev Mask := { key : Bytes // key.length = 4 }

/-- What a `std::string` can be as a message: not empty, and below `max_size()`. -/
abbrev Message := { text : Bytes // text ≠ [] ∧ text.length < 2 ^ 63 }

/-- The second byte of a frame, with the mask bit in it, and the extended length. -/
def lengthField (maskBit : UInt8) (length : Nat) : Bytes :=
  if length < 126 then [maskBit ||| UInt8.ofNat length]
  else if length < 65536 then (maskBit ||| 126) :: putBE 2 length
  else (maskBit ||| 127) :: putBE 8 length

/-- A frame with a first byte, masked or not. -/
def frame (first : UInt8) (mask : Option Mask) (payload : Bytes) : Bytes :=
  match mask with
  | none => first :: (lengthField 0 payload.length ++ payload)
  | some key => first :: (lengthField 0x80 payload.length ++ (key.1 ++ unmask key.1 payload))

/-- `ws_send` (ws_filter_check.py:39). -/
def clientFrame (mask : Mask) (text : Bytes) : Bytes :=
  let n := text.length
  let header := [0x81] ++
    if n < 126 then [0x80 ||| UInt8.ofNat n]
    else if n < 65536 then [0x80 ||| 126] ++ putBE 2 n
    else [0x80 ||| 127] ++ putBE 8 n
  header ++ mask.1 ++ unmask mask.1 text

/-- What the server sends without a mask, and a client with one. -/
def messageFrame (mask : Option Mask) (text : Bytes) : Bytes :=
  match mask with
  | none => textFrame text
  | some key => clientFrame key text

/-! ## Cutting off -/

/-- `n` frames cut off and parsed, as the loop does it, and what is left. -/
def unframe : Nat → Bytes → Option (List Bytes × Bytes)
  | 0, pending => some ([], pending)
  | n + 1, pending =>
    if Accepts pending then
      match parseWebSocketFrame (pending.take (completeFrameSize pending).toNat) with
      | .error _ => none
      | .ok message => (unframe n (pending.drop (completeFrameSize pending).toNat)).map fun p => (message :: p.1, p.2)
    else none

section
variable {first bit : UInt8} {mask : Option Mask} {payload rest data : Bytes} {n : Nat}

/-! ## The length field -/

theorem clientFrame_eq (key : Mask) (text : Bytes) : clientFrame key text = frame 0x81 (some key) text := by
  unfold clientFrame frame lengthField
  simp only
  split
  · simp
  · split <;> simp

theorem putBE_two (n : Nat) : putBE 2 n = [UInt8.ofNat (n >>> 8), UInt8.ofNat n] := by
  simp [putBE, putLE, Nat.shiftRight_eq_div_pow]

theorem putBE_eight (n : Nat) : putBE 8 n = (List.range 8).map fun i => UInt8.ofNat (n >>> ((7 - i) * 8)) := by
  have hrange : List.range 8 = [0, 1, 2, 3, 4, 5, 6, 7] := rfl
  rw [hrange]
  simp [putBE, putLE, Nat.shiftRight_eq_div_pow, Nat.div_div_eq_div_mul]

theorem textFrame_eq (text : Bytes) : textFrame text = frame 0x81 none text := by
  unfold textFrame frame lengthField
  simp only [← putBE_two, ← putBE_eight, UInt8.zero_or]
  split
  · rfl
  · split <;> rfl

theorem messageFrame_eq (mask : Option Mask) (text : Bytes) : messageFrame mask text = frame 0x81 mask text := by
  cases mask with
  | none => exact textFrame_eq text
  | some key => exact clientFrame_eq key text

theorem toNat_maskBit_or (hbit : bit = 0 ∨ bit = 0x80) (h : n < 128) :
    (bit ||| UInt8.ofNat n).toNat = (if bit = 0 then 0 else 128) + n := by
  have hall : ∀ i : Fin 128, (0x80 ||| UInt8.ofNat i.1).toNat = 128 + i.1 := by decide
  rcases hbit with rfl | rfl
  · rw [UInt8.zero_or, if_pos rfl, UInt8.toNat_ofNat']
    omega
  · rw [if_neg (by decide)]
    exact hall ⟨n, h⟩

theorem length_lengthField (bit : UInt8) (n : Nat) :
    (lengthField bit n).length = if n < 126 then 1 else if n < 65536 then 3 else 9 := by
  unfold lengthField
  split
  · rfl
  · split <;> simp

/-- **A length is read off whatever follows its field.** -/
theorem exactHeader_lengthField (hbit : bit = 0 ∨ bit = 0x80) (hn : n < 2 ^ 64) (first : UInt8) (tail : Bytes) :
    exactHeader (first :: (lengthField bit n ++ tail)) =
      some (1 + (lengthField bit n).length + (if bit = 0 then 0 else 4), n) := by
  have hmask (m : Nat) (hm : m < 128) : (if (bit ||| UInt8.ofNat m).toNat < 128 then 0 else 4) = if bit = 0 then 0 else 4 := by
    rw [toNat_maskBit_or hbit hm]
    rcases hbit with rfl | rfl
    · rw [if_pos rfl, if_pos (by omega), if_pos rfl]
    · have hbit : ¬ (0x80 : UInt8) = 0 := by decide
      rw [if_neg hbit, if_neg (show ¬ 128 + m < 128 by omega), if_neg hbit]
  have hmod (m : Nat) (hm : m < 128) : (bit ||| UInt8.ofNat m).toNat % 128 = m := by
    rw [toNat_maskBit_or hbit hm]
    split <;> omega
  have h126 : bit ||| 126 = bit ||| UInt8.ofNat 126 := rfl
  have h127 : bit ||| 127 = bit ||| UInt8.ofNat 127 := rfl
  rw [length_lengthField]
  unfold exactHeader lengthField
  split
  · have hsecond : (first :: ([bit ||| UInt8.ofNat n] ++ tail)).getD 1 0 = bit ||| UInt8.ofNat n := rfl
    simp only [hsecond, hmod n (by omega), hmask n (by omega)]
    rw [if_neg (by simp), if_neg (by omega), if_neg (by omega)]
  · split
    · have hsecond : (first :: ((bit ||| 126) :: putBE 2 n ++ tail)).getD 1 0 = bit ||| UInt8.ofNat 126 := rfl
      have hfield : ((first :: ((bit ||| 126) :: putBE 2 n ++ tail)).drop 2).take 2 = putBE 2 n := by
        rw [List.cons_append, List.drop_succ_cons, List.drop_succ_cons, List.drop_zero]
        exact List.take_left' (by simp)
      simp only [hsecond, hmod 126 (by omega), hmask 126 (by omega), hfield, if_true]
      rw [if_neg (by simp), if_neg (by simp), getBE_putBE_of_lt (by omega)]
    · have hsecond : (first :: ((bit ||| 127) :: putBE 8 n ++ tail)).getD 1 0 = bit ||| UInt8.ofNat 127 := rfl
      have hfield : ((first :: ((bit ||| 127) :: putBE 8 n ++ tail)).drop 2).take 8 = putBE 8 n := by
        rw [List.cons_append, List.drop_succ_cons, List.drop_succ_cons, List.drop_zero]
        exact List.take_left' (by simp)
      simp only [hsecond, hmod 127 (by omega), hmask 127 (by omega), hfield, if_true]
      rw [if_neg (by simp), if_neg (by decide), if_neg (by simp), getBE_putBE_of_lt (by omega)]

/-! ## One frame -/

@[simp] theorem length_unmask (mask payload : Bytes) : (unmask mask payload).length = payload.length := by
  simp [unmask]

theorem getElem?_unmask (mask payload : Bytes) (i : Nat) :
    (unmask mask payload)[i]? = payload[i]?.map fun c => c ^^^ mask.getD (i % 4) 0 := by
  rw [unmask, List.getElem?_map, List.getElem?_zipIdx, Option.map_map]
  simp [Function.comp_def]

/-- Masking twice is not masking. -/
@[simp] theorem unmask_unmask (mask payload : Bytes) : unmask mask (unmask mask payload) = payload := by
  refine List.ext_getElem? fun i => ?_
  have htwice : ∀ c : UInt8, c ^^^ mask.getD (i % 4) 0 ^^^ mask.getD (i % 4) 0 = c := fun c => by
    rw [UInt8.xor_assoc, UInt8.xor_self, UInt8.xor_zero]
  rw [getElem?_unmask, getElem?_unmask, Option.map_map]
  exact (Option.map_congr fun c _ => htwice c).trans Option.map_id'

/-- The size of the header of a frame. -/
def headerSize (mask : Option Mask) (payload : Bytes) : Nat :=
  1 + (lengthField 0 payload.length).length + if mask.isSome then 4 else 0

theorem length_frame (first : UInt8) (mask : Option Mask) (payload : Bytes) :
    (frame first mask payload).length = headerSize mask payload + payload.length := by
  cases mask with
  | none =>
    simp [frame, headerSize]
    omega
  | some key =>
    have hkey := key.2
    simp [frame, headerSize, length_lengthField, hkey]
    omega

/-- **A frame says its length.** -/
theorem exactHeader_frame (first : UInt8) (mask : Option Mask) (h : payload.length < 2 ^ 64) (rest : Bytes) :
    exactHeader (frame first mask payload ++ rest) = some (headerSize mask payload, payload.length) := by
  cases mask with
  | none =>
    have := exactHeader_lengthField (Or.inl (rfl : (0 : UInt8) = 0)) h first (payload ++ rest)
    simpa [frame, headerSize] using this
  | some key =>
    have := exactHeader_lengthField (Or.inr (rfl : (0x80 : UInt8) = 0x80)) h first (key.1 ++ (unmask key.1 payload ++ rest))
    simpa [frame, headerSize, length_lengthField] using this

theorem headerSize_le (mask : Option Mask) (payload : Bytes) : 2 ≤ headerSize mask payload ∧ headerSize mask payload ≤ 14 := by
  unfold headerSize
  rw [length_lengthField]
  constructor <;> (split <;> split <;> try split) <;> omega

theorem exactSize_frame (first : UInt8) (mask : Option Mask) (h : payload.length < 2 ^ 63) (rest : Bytes) :
    exactSize (frame first mask payload ++ rest) = some (frame first mask payload).length := by
  rw [exactSize, exactHeader_frame first mask (by omega), length_frame]
  rfl

theorem completeFrameSize_frame (first : UInt8) (mask : Option Mask) (h : payload.length < 2 ^ 63) (rest : Bytes) :
    (completeFrameSize (frame first mask payload ++ rest)).toNat = (frame first mask payload).length := by
  have hheader := headerSize_le mask payload
  rw [toNat_completeFrameSize, exactSize_frame first mask h, Option.getD_some]
  apply Nat.mod_eq_of_lt
  rw [length_frame]
  omega

theorem accepts_frame (first : UInt8) (mask : Option Mask) (h : payload.length < 2 ^ 63) (rest : Bytes) :
    Accepts (frame first mask payload ++ rest) := by
  have hsize := completeFrameSize_frame first mask h rest
  have hlength := length_frame first mask payload
  have hheader := headerSize_le mask payload
  constructor
  · intro h0
    rw [h0] at hsize
    have : (0 : UInt64).toNat = 0 := rfl
    omega
  · rw [hsize, List.length_append]
    omega

@[simp] theorem opcode_frame (first : UInt8) (mask : Option Mask) (payload : Bytes) :
    opcode (frame first mask payload) = first &&& 0x0f := by
  cases mask <;> rfl

theorem maskBit_frame (first : UInt8) (mask : Option Mask) (payload : Bytes) :
    (frame first mask payload).getD 1 0 &&& 0x80 = 0 ↔ mask = none := by
  have hlow (m : Nat) (h : m < 128) : (0 ||| UInt8.ofNat m) &&& 0x80 = 0 := by
    rw [maskBit_eq_zero_iff, toNat_maskBit_or (Or.inl rfl) h, if_pos rfl]
    omega
  have hhigh (m : Nat) (h : m < 128) : ¬ (0x80 ||| UInt8.ofNat m) &&& 0x80 = 0 := by
    rw [maskBit_eq_zero_iff, toNat_maskBit_or (Or.inr rfl) h, if_neg (by decide)]
    omega
  cases mask with
  | none =>
    refine iff_of_true ?_ rfl
    unfold frame lengthField
    simp only
    split
    · exact hlow _ (by omega)
    · split
      · exact hlow 126 (by omega)
      · exact hlow 127 (by omega)
  | some key =>
    refine iff_of_false ?_ (by simp)
    unfold frame lengthField
    simp only
    split
    · exact hhigh _ (by omega)
    · split
      · exact hhigh 126 (by omega)
      · exact hhigh 127 (by omega)

/-- **A text frame is parsed to its message, and any other frame to none.** -/
theorem parse_frame (first : UInt8) (mask : Option Mask) (h : payload.length < 2 ^ 63) :
    parseWebSocketFrame (frame first mask payload) = .ok (if first &&& 0x0f = 1 then payload else []) := by
  have hlength := length_frame first mask payload
  have hsize := headerSize_le mask payload
  have hexact := exactHeader_frame first mask (show payload.length < 2 ^ 64 by omega) []
  rw [List.append_nil, exactHeader_eq] at hexact
  obtain ⟨⟨headerLength, payloadLength⟩, hheader, heq⟩ := Option.map_eq_some_iff.1 hexact
  obtain ⟨hheaderLength, hpayloadLength⟩ := Prod.mk.inj heq
  simp only at hheaderLength hpayloadLength
  have hsum : (headerLength + payloadLength).toNat = (frame first mask payload).length := by
    rw [UInt64.toNat_add, hheaderLength, hpayloadLength, hlength]
    exact Nat.mod_eq_of_lt (by omega)
  unfold parseWebSocketFrame
  rw [opcode_frame, if_neg (by omega)]
  by_cases hopcode : first &&& 0x0f = 1
  · rw [if_neg (not_not.2 hopcode), if_pos hopcode, hheader]
    simp only [hsum, lt_irrefl, if_false, hheaderLength, hpayloadLength, maskBit_frame]
    rw [if_neg (by omega)]
    cases mask with
    | none =>
      have hdrop : (frame first none payload).drop (headerSize none payload) = payload := by
        have hfield : headerSize none payload = (first :: lengthField 0 payload.length).length := by
          simp [headerSize]
          omega
        rw [hfield]
        exact List.drop_left
      rw [if_pos rfl, hdrop, List.take_length]
    | some key =>
      have hkey := key.2
      have hfield : headerSize (some key) payload - 4 = (first :: lengthField 0x80 payload.length).length := by
        simp [headerSize, length_lengthField]
        omega
      have hmask : ((frame first (some key) payload).drop (headerSize (some key) payload - 4)) = key.1 ++ unmask key.1 payload := by
        rw [hfield]
        exact List.drop_left
      have hdrop : (frame first (some key) payload).drop (headerSize (some key) payload) = unmask key.1 payload := by
        have hsplit : headerSize (some key) payload = headerSize (some key) payload - 4 + 4 := by
          have : 6 ≤ headerSize (some key) payload := by
            simp [headerSize, length_lengthField]
            split <;> try split
            all_goals omega
          omega
        rw [hsplit, ← List.drop_drop, hmask]
        exact List.drop_left' hkey
      rw [if_neg (by simp), hmask, hdrop, List.take_left' hkey, List.take_of_length_le (by simp), unmask_unmask]
  · rw [if_pos hopcode, if_neg hopcode]

/-! ## Many frames -/

theorem take_frame (first : UInt8) (mask : Option Mask) (h : payload.length < 2 ^ 63) (rest : Bytes) :
    (frame first mask payload ++ rest).take (completeFrameSize (frame first mask payload ++ rest)).toNat =
      frame first mask payload := by
  rw [completeFrameSize_frame first mask h]
  exact List.take_left

theorem drop_frame (first : UInt8) (mask : Option Mask) (h : payload.length < 2 ^ 63) (rest : Bytes) :
    (frame first mask payload ++ rest).drop (completeFrameSize (frame first mask payload ++ rest)).toNat = rest := by
  rw [completeFrameSize_frame first mask h]
  exact List.drop_left

theorem unframe_messages (frames : List (Option Mask × Message)) (following : Bytes) :
    unframe frames.length (frames.flatMap (fun f => messageFrame f.1 f.2.1) ++ following) =
      some (frames.map fun f => f.2.1, following) := by
  induction frames with
  | nil => rfl
  | cons f frames ih =>
    obtain ⟨mask, message, -, hlen⟩ := f
    simp only [messageFrame_eq] at ih ⊢
    rw [List.length_cons, unframe, List.flatMap_cons, List.append_assoc, if_pos (accepts_frame 0x81 mask hlen _),
      take_frame 0x81 mask hlen, drop_frame 0x81 mask hlen, parse_frame 0x81 mask hlen, ih]
    rfl

/-- No header with the length of the payload is shorter. -/
theorem headerSize_le_of_header {h : Nat} (heq : exactHeader data = some (h, payload.length)) :
    headerSize none payload ≤ h := by
  unfold exactHeader at heq
  have hsize : headerSize none payload = 1 + if payload.length < 126 then 1 else if payload.length < 65536 then 3 else 9 := by
    simp [headerSize, length_lengthField]
  have hshort : payload.length < 126 → headerSize none payload = 2 := by
    intro hlt
    rw [hsize, if_pos hlt]
  have hmiddle : payload.length < 65536 → headerSize none payload ≤ 4 := by
    intro hlt
    rw [hsize, if_pos hlt]
    split <;> omega
  have hlong : headerSize none payload ≤ 10 := by
    rw [hsize]
    split
    · omega
    · split <;> omega
  simp only at heq
  split at heq
  · cases heq
  · split at heq
    · split at heq
      · cases heq
      · obtain ⟨rfl, hp⟩ := Prod.mk.inj (Option.some.inj heq)
        have hlt := getBE_lt ((data.drop 2).take 2)
        have htwo : ((data.drop 2).take 2).length = 2 := by
          rw [List.length_take, List.length_drop]
          omega
        rw [htwo, hp] at hlt
        exact (hmiddle (by omega)).trans (by omega)
    · split at heq
      · split at heq
        · cases heq
        · obtain ⟨rfl, -⟩ := Prod.mk.inj (Option.some.inj heq)
          exact hlong.trans (by omega)
      · obtain ⟨rfl, hp⟩ := Prod.mk.inj (Option.some.inj heq)
        have hsmall := hshort (by omega)
        omega

/-- **What is built is what is cut off and parsed**, for any frames of the server and of clients behind each other and
whatever follows them; and of all headers that state the length of a message the server writes the shortest. -/
theorem frames_round_trip :
    (∀ (frames : List (Option Mask × Message)) (following : Bytes),
      unframe frames.length (frames.flatMap (fun f => messageFrame f.1 f.2.1) ++ following) =
        some (frames.map fun f => f.2.1, following)) ∧
    ∀ message : Message, ∃ h, exactHeader (textFrame message.1) = some (h, message.1.length) ∧
      ∀ data h', exactHeader data = some (h', message.1.length) → h ≤ h' := by
  refine ⟨unframe_messages, ?_⟩
  rintro ⟨text, hne, hlen⟩
  have hheader := exactHeader_frame 0x81 none (show text.length < 2 ^ 64 by omega) []
  rw [List.append_nil, ← textFrame_eq] at hheader
  exact ⟨headerSize none text, hheader, fun data h' h => headerSize_le_of_header h⟩

end

end WebSocketFrame

end OriginDB
