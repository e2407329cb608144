import OriginDB.Lib.Json
/-!
# WebSocket frames (`websocket_server.cpp:336-362, 414-513`)

The read loop cuts a frame off the bytes received when `CompleteFrameSize` says that it is all there, and
`ParseWebSocketFrame` takes the message out of it. Both add the payload length to the header size in 64 bits: a
length that the sum wraps around for makes a frame of a few bytes, and `substr` is asked for a payload behind its end
(`parse_error_iff`).
-/
namespace OriginDB

open JsonDoc ByteCodec

namespace WebSocketFrame

/-- `(v << 8) | b`. -/
def shiftIn (v : UInt64) (b : UInt8) : UInt64 := (v <<< 8) ||| b.toUInt64

def bigEndian (b : Bytes) : UInt64 := b.foldl shiftIn 0

def maskSize (data : Bytes) : UInt64 := if data.getD 1 0 &&& 0x80 = 0 then 0 else 4

/-- The size of the header, its masking key included, and the length of the payload, once the header is there. -/
def header (data : Bytes) : Option (UInt64 × UInt64) :=
  let length := data.getD 1 0 &&& 0x7f
  if data.length < 2 then none
  else if length = 126 then
    if data.length < 4 then none else some (4 + maskSize data, bigEndian ((data.drop 2).take 2))
  else if length = 127 then
    if data.length < 10 then none else some (10 + maskSize data, bigEndian ((data.drop 2).take 8))
  else some (2 + maskSize data, length.toUInt64)

def opcode (data : Bytes) : UInt8 := data.getD 0 0 &&& 0x0f

/-- `CompleteFrameSize` (websocket_server.cpp:336). -/
def completeFrameSize (data : Bytes) : UInt64 :=
  match header data with
  | none => 0
  | some (headerSize, payloadLength) => headerSize + payloadLength

/-- The exception of `substr`. -/
def outOfRange (pos size : Nat) : Bytes :=
  str "basic_string::substr: __pos (which is " ++ str (toString pos) ++ str ") > this->size() (which is " ++
    str (toString size) ++ str ")"

/-- `payload[i] ^= mask[i % 4]`. -/
def unmask (mask payload : Bytes) : Bytes := payload.zipIdx.map fun (b, i) => b ^^^ mask.getD (i % 4) 0

/-- `ParseWebSocketFrame` (websocket_server.cpp:445). -/
def parseWebSocketFrame (data : Bytes) : Except Bytes Bytes :=
  if data.length < 2 then .ok []
  else if opcode data ≠ 1 then .ok []
  else match header data with
    | none => .ok []
    | some (headerSize, payloadLength) =>
      if data.length < (headerSize + payloadLength).toNat then .ok []
      else if data.length < headerSize.toNat then .error (outOfRange headerSize.toNat data.length)
      else
        let payload := (data.drop headerSize.toNat).take payloadLength.toNat
        if data.getD 1 0 &&& 0x80 = 0 then .ok payload
        else .ok (unmask ((data.drop (headerSize.toNat - 4)).take 4) payload)

/-- The frame `SendWebSocketFrame` (websocket_server.cpp:414) builds. -/
def textFrame (message : Bytes) : Bytes :=
  let length := message.length
  let size :=
    if length < 126 then [UInt8.ofNat length]
    else if length < 65536 then [126, UInt8.ofNat (length >>> 8), UInt8.ofNat length]
    else 127 :: (List.range 8).map fun i => UInt8.ofNat (length >>> ((7 - i) * 8))
  0x81 :: size ++ message

/-- A masked text frame with a length that the size of the frame wraps around for, to less than its header. -/
def wraps (data : Bytes) : Bool :=
  match header data with
  | some (headerSize, payloadLength) => opcode data = 1 && headerSize = 14 && 2 ^ 64 - 4 ≤ payloadLength.toNat
  | none => false

/-! ## What is cut off -/

section
variable {data : Bytes} {n k : UInt64} {m : Nat}

@[simp] theorem getD_take (i : Nat) (h : i < m) : (data.take m).getD i 0 = data.getD i 0 := by
  simp [List.getD, h]

theorem maskSize_cases (data : Bytes) : maskSize data = 0 ∨ maskSize data = 4 := by
  unfold maskSize
  split <;> simp

@[simp] theorem maskSize_take (h : 2 ≤ m) : maskSize (data.take m) = maskSize data := by
  unfold maskSize
  rw [getD_take 1 h]

/-- One byte more, while there is room for it. -/
theorem toNat_shiftIn (v : UInt64) (b : UInt8) (h : (v.toNat + 1) * 2 ^ 8 ≤ 2 ^ 64) :
    (shiftIn v b).toNat = v.toNat * 256 + b.toNat := by
  have hv : (v <<< 8).toNat = v.toNat * 2 ^ 8 := by
    rw [UInt64.toNat_shiftLeft, Nat.shiftLeft_eq]
    exact Nat.mod_eq_of_lt (by simpa using by omega)
  have hor : v.toNat * 2 ^ 8 ||| b.toNat = v.toNat * 2 ^ 8 + b.toNat := by
    have := Nat.shiftLeft_add_eq_or_of_lt b.toNat_lt v.toNat
    rw [Nat.shiftLeft_eq] at this
    exact this.symm
  rw [shiftIn, UInt64.toNat_or, hv, UInt8.toNat_toUInt64, hor]
  rfl

/-- Bytes that there is room for are a number to the base 256. -/
theorem toNat_foldl_shiftIn (b : Bytes) (v : UInt64) (h : (v.toNat + 1) * 2 ^ (8 * b.length) ≤ 2 ^ 64) :
    (b.foldl shiftIn v).toNat = b.foldl (fun v c => v * 256 + c.toNat) v.toNat ∧
      (b.foldl shiftIn v).toNat + 1 ≤ (v.toNat + 1) * 2 ^ (8 * b.length) := by
  induction b generalizing v with
  | nil => simp
  | cons c b ih =>
    have hpow : (v.toNat + 1) * 2 ^ (8 * (c :: b).length) = (v.toNat + 1) * 2 ^ 8 * 2 ^ (8 * b.length) := by
      rw [List.length_cons, Nat.mul_assoc, ← Nat.pow_add]
      congr 2
      omega
    rw [hpow] at h ⊢
    have hbyte := toNat_shiftIn v c ((Nat.le_mul_of_pos_right _ (Nat.two_pow_pos _)).trans h)
    have hstep : (shiftIn v c).toNat + 1 ≤ (v.toNat + 1) * 2 ^ 8 := by
      have hc := c.toNat_lt
      omega
    have hle := Nat.mul_le_mul_right (2 ^ (8 * b.length)) hstep
    obtain ⟨hvalue, hbound⟩ := ih (shiftIn v c) (hle.trans h)
    rw [List.foldl_cons, List.foldl_cons]
    exact ⟨hvalue.trans (by rw [hbyte]), hbound.trans hle⟩

/-- The short forms have short lengths. -/
theorem header_cases (h : header data = some (n, k)) :
    (n.toNat ≤ 8 ∧ k.toNat < 2 ^ 16) ∨ 10 ≤ data.length ∧ (n = 10 ∨ n = 14) := by
  have hmask := maskSize_cases data
  unfold header at h
  simp only at h
  split at h
  · cases h
  · split at h
    · split at h
      · cases h
      · cases h
        refine Or.inl ⟨?_, ?_⟩
        · rcases hmask with hm | hm <;> rw [hm] <;> decide
        · have hlen : ((data.drop 2).take 2).length = 2 := by simp; omega
          have := (toNat_foldl_shiftIn ((data.drop 2).take 2) 0 (by rw [hlen]; decide)).2
          rw [hlen] at this
          exact this
    · split at h
      · split at h
        · cases h
        · cases h
          refine Or.inr ⟨by omega, ?_⟩
          rcases hmask with hm | hm <;> rw [hm] <;> decide
      · cases h
        refine Or.inl ⟨?_, ?_⟩
        · rcases hmask with hm | hm <;> rw [hm] <;> decide
        · have := (data.getD 1 0 &&& 0x7f).toNat_lt
          rw [UInt8.toNat_toUInt64]
          omega

theorem header_take (h : 10 ≤ m) : header (data.take m) = header data := by
  have hshort : ∀ i ≤ 10, ((data.take m).length < i ↔ data.length < i) := by
    intro i hi
    rw [List.length_take]
    omega
  have hbytes : ∀ i ≤ 8, ((data.take m).drop 2).take i = (data.drop 2).take i := by
    intro i hi
    rw [List.drop_take, List.take_take, min_eq_left (by omega)]
  unfold header
  simp only [hshort 2 (by omega), hshort 4 (by omega), hshort 10 (by omega), hbytes 2 (by omega), hbytes 8 (by omega),
    maskSize_take (show 2 ≤ m by omega), getD_take 1 (show 1 < m by omega)]

/-- A header that is there is the same however much follows. -/
theorem header_of_take (h : header (data.take m) = some (n, k)) : header data = some (n, k) := by
  have hlen : (data.take m).length ≤ data.length ∧ (data.take m).length ≤ m := by simp
  have hbytes : ∀ i, i + 2 ≤ m → ((data.take m).drop 2).take i = (data.drop 2).take i := by
    intro i hi
    rw [List.drop_take, List.take_take, min_eq_left (by omega)]
  unfold header at h ⊢
  simp only at h ⊢
  split at h
  · cases h
  · rename_i h2
    rw [maskSize_take (by omega), getD_take 1 (by omega)] at h
    rw [if_neg (by omega)]
    split at h
    · rename_i hform
      split at h
      · cases h
      · rw [if_pos hform, if_neg (by omega), ← hbytes 2 (by omega)]
        exact h
    · rename_i hform
      rw [if_neg hform]
      split at h
      · rename_i hform'
        split at h
        · cases h
        · rw [if_pos hform', if_neg (by omega), ← hbytes 8 (by omega)]
          exact h
      · rename_i hform'
        rw [if_neg hform']
        exact h

/-- **A frame that is cut off is parsed, unless its length wraps around.** -/
theorem parse_error_iff (hsize : completeFrameSize data ≠ 0) (hle : (completeFrameSize data).toNat ≤ data.length) :
    (∃ e, parseWebSocketFrame (data.take (completeFrameSize data).toNat) = .error e) ↔ wraps data = true := by
  cases hh : header data with
  | none => simp [completeFrameSize, hh] at hsize
  | some p =>
    obtain ⟨n, k⟩ := p
    have hs : completeFrameSize data = n + k := by simp [completeFrameSize, hh]
    rw [hs] at hsize hle ⊢
    have hpos : 0 < (n + k).toNat := by
      have : (n + k).toNat ≠ 0 := by
        intro h0
        exact hsize (UInt64.toNat_inj.1 h0)
      omega
    have hsum : (n + k).toNat = (n.toNat + k.toNat) % 2 ^ 64 := UInt64.toNat_add n k
    have hlen : (data.take (n + k).toNat).length = (n + k).toNat := List.length_take_of_le hle
    have hop : opcode (data.take (n + k).toNat) = opcode data := by
      rw [opcode, getD_take 0 hpos, opcode]
    unfold parseWebSocketFrame
    simp only [hlen, hop, wraps, hh, Bool.and_eq_true, decide_eq_true_eq]
    constructor
    · rintro ⟨e, he⟩
      split at he
      · cases he
      · split at he
        · cases he
        · rename_i hop1
          cases ht : header (data.take (n + k).toNat) with
          | none =>
            rw [ht] at he
            cases he
          | some q =>
            obtain ⟨n', k'⟩ := q
            have heq := header_of_take ht
            rw [hh] at heq
            cases heq
            simp only [ht, lt_irrefl, if_false] at he
            split at he
            · rename_i hshort
              -- the sum is less than the header
              rcases header_cases ht with ⟨hn, hk⟩ | ⟨h10, rfl | rfl⟩
              · omega
              · rw [hlen] at h10
                have : (10 : UInt64).toNat = 10 := rfl
                omega
              · rw [hlen] at h10
                have h14 : (14 : UInt64).toNat = 14 := rfl
                have := k.toNat_lt
                refine ⟨⟨not_not.1 hop1, rfl⟩, ?_⟩
                omega
            · split at he <;> cases he
    · rintro ⟨⟨hop1, rfl⟩, hk⟩
      have h14 : (14 : UInt64).toNat = 14 := rfl
      have hlt := k.toNat_lt
      have hwrap : (14 + k).toNat = 14 + k.toNat - 2 ^ 64 := by omega
      rw [if_neg (by omega), if_neg (not_not.2 hop1), header_take (by omega), hh]
      simp only [lt_irrefl, if_false]
      rw [if_pos (by omega)]
      exact ⟨_, rfl⟩

end

end WebSocketFrame

end OriginDB
