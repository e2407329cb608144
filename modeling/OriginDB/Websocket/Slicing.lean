import OriginDB.Lib.Slices
import OriginDB.Websocket.HandleClient
/-!
# Cutting frames off the bytes received (`websocket_server.cpp:238-276, 336-362, 445-513`)

| here | there |
| --- | --- |
| `exactHeader`, `exactSize` | the header of RFC 6455 5.2, in numbers without an end |
| `Accepts`      | `frame_size == 0 \|\| frame_size > pending.size()` does not hold (`:252`) |
| `checkedParse` | `ParseWebSocketFrame`, each `data[i]` and each `substr` looked at before it is made |

`CompleteFrameSize` is the exact size modulo 2⁶⁴. A size above 2⁶⁴ leaves less than the header of the frame, which is
cut off as soon as these few bytes are there: that is the only way for the cut to be wrong (`slicing_safe_iff`). The
loop ends on every input.
-/
namespace OriginDB

open ByteCodec Throwing

namespace WebSocketFrame

/-! ## Exact sizes -/

/-- The size of the header, masking key included, and the length of the payload. -/
def exactHeader (data : Bytes) : Option (Nat × Nat) :=
  let second := (data.getD 1 0).toNat
  let length := second % 128
  let mask := if second < 128 then 0 else 4
  if data.length < 2 then none
  else if length = 126 then
    if data.length < 4 then none else some (4 + mask, getBE ((data.drop 2).take 2))
  else if length = 127 then
    if data.length < 10 then none else some (10 + mask, getBE ((data.drop 2).take 8))
  else some (2 + mask, length)

def exactSize (data : Bytes) : Option Nat := (exactHeader data).map fun p => p.1 + p.2

/-- The loop cuts a frame off. -/
def Accepts (pending : Bytes) : Prop :=
  completeFrameSize pending ≠ 0 ∧ (completeFrameSize pending).toNat ≤ pending.length

instance (pending : Bytes) : Decidable (Accepts pending) := inferInstanceAs (Decidable (_ ∧ _))

/-! ## Every access looked at -/

/-- An access out of range: of an element, or of the position of a `substr`. -/
inductive OutOfRange where
  | index (i size : Nat)
  | substr (pos size : Nat)
deriving DecidableEq

def byteAt (data : Bytes) (i : Nat) : Except OutOfRange UInt8 :=
  match data[i]? with
  | some b => .ok b
  | none => .error (.index i data.length)

def substr (data : Bytes) (pos n : Nat) : Except OutOfRange Bytes :=
  if data.length < pos then .error (.substr pos data.length) else .ok ((data.drop pos).take n)

/-- The bytes `data[i]` … of a loop. -/
def bytesFrom (data : Bytes) (i : Nat) : Nat → Except OutOfRange Bytes
  | 0 => .ok []
  | n + 1 => do
    let b ← byteAt data i
    let bs ← bytesFrom data (i + 1) n
    pure (b :: bs)

/-- The header `ParseWebSocketFrame` reads (websocket_server.cpp:475-495). -/
def checkedHeader (data : Bytes) : Except OutOfRange (Option (UInt64 × UInt64)) := do
  let second ← byteAt data 1
  let mask : UInt64 := if second &&& 0x80 = 0 then 0 else 4
  let length := second &&& 0x7f
  if length = 126 then
    if data.length < 4 then pure none
    else do
      let field ← bytesFrom data 2 2
      pure (some (4 + mask, bigEndian field))
  else if length = 127 then
    if data.length < 10 then pure none
    else do
      let field ← bytesFrom data 2 8
      pure (some (10 + mask, bigEndian field))
  else pure (some (2 + mask, length.toUInt64))

/-- `ParseWebSocketFrame` (websocket_server.cpp:445). -/
def checkedParse (data : Bytes) : Except OutOfRange Bytes :=
  if data.length < 2 then pure []
  else do
    let first ← byteAt data 0
    let second ← byteAt data 1
    if first &&& 0x0f ≠ 1 then pure []
    else
      match ← checkedHeader data with
      | none => pure []
      | some (headerSize, payloadLength) =>
        if data.length < (headerSize + payloadLength).toNat then pure []
        else do
          let payload ← substr data headerSize.toNat payloadLength.toNat
          if second &&& 0x80 = 0 then pure payload
          else do
            let mask ← bytesFrom data (headerSize.toNat - 4) 4
            pure (unmask mask payload)

/-- What a cut has to be: as long as the frame is, in range for the parser, and at least a byte. -/
structure SafelySliced (pending : Bytes) (n : Nat) : Prop where
  exact_size : ∃ headerSize payloadLength, exactHeader pending = some (headerSize, payloadLength) ∧
    n = headerSize + payloadLength
  in_range : ∃ message, checkedParse (pending.take n) = .ok message
  shorter : (pending.drop n).length < pending.length

/-! ## The size is exact modulo 2⁶⁴ -/

section
variable {data pending : Bytes} {n k : UInt64}

theorem toNat_bigEndian (b : Bytes) (h : b.length ≤ 8) : (bigEndian b).toNat = getBE b := by
  have hpow : 2 ^ (8 * b.length) ≤ 2 ^ 64 := Nat.pow_le_pow_right (by omega) (by omega)
  rw [bigEndian, (toNat_foldl_shiftIn b 0 (by simpa using hpow)).1, getBE_eq_foldl]
  rfl

theorem maskBit_eq_zero_iff (b : UInt8) : b &&& 0x80 = 0 ↔ b.toNat < 128 := by
  have hall : ∀ i : Fin 256, UInt8.ofFin i &&& 0x80 = 0 ↔ (UInt8.ofFin i).toNat < 128 := by decide +kernel
  exact hall b.toFin

theorem toNat_maskSize (data : Bytes) : (maskSize data).toNat = if (data.getD 1 0).toNat < 128 then 0 else 4 := by
  unfold maskSize
  simp only [maskBit_eq_zero_iff]
  split <;> rfl

theorem toNat_lengthField (b : UInt8) : (b &&& 0x7f).toNat = b.toNat % 128 := by
  rw [UInt8.toNat_and]
  exact Nat.and_two_pow_sub_one_eq_mod b.toNat 7

/-- The header the code reads is the exact one. -/
theorem exactHeader_eq (data : Bytes) : exactHeader data = (header data).map fun p => (p.1.toNat, p.2.toNat) := by
  have hmask : maskSize data = 0 ∨ maskSize data = 4 := maskSize_cases data
  have hform (n : UInt8) : data.getD 1 0 &&& 0x7f = n ↔ (data.getD 1 0).toNat % 128 = n.toNat := by
    rw [← toNat_lengthField, UInt8.toNat_inj]
  have hadd (n : UInt64) (h : n.toNat ≤ 10) : (n + maskSize data).toNat = n.toNat + (maskSize data).toNat := by
    rw [UInt64.toNat_add]
    rcases hmask with hm | hm <;> rw [hm] <;> exact Nat.mod_eq_of_lt (by simpa using by omega)
  have h126 : _ ↔ _ = 126 := hform 126
  have h127 : _ ↔ _ = 127 := hform 127
  have hlength := toNat_lengthField (data.getD 1 0)
  unfold exactHeader header
  simp only [h126, h127, ← toNat_maskSize]
  split
  · rfl
  · split
    · split
      · rfl
      · rw [Option.map_some, hadd 4 (by decide), toNat_bigEndian _ (by rw [List.length_take]; omega)]
        rfl
    · split
      · split
        · rfl
        · rw [Option.map_some, hadd 10 (by decide), toNat_bigEndian _ (by rw [List.length_take]; omega)]
          rfl
      · rw [Option.map_some, hadd 2 (by decide), UInt8.toNat_toUInt64, hlength]
        rfl

theorem toNat_completeFrameSize (data : Bytes) :
    (completeFrameSize data).toNat = (exactSize data).getD 0 % 2 ^ 64 := by
  unfold completeFrameSize exactSize
  rw [exactHeader_eq]
  cases header data with
  | none => rfl
  | some p => exact UInt64.toNat_add p.1 p.2

theorem exactHeader_bounds {h p : Nat} (heq : exactHeader data = some (h, p)) : 2 ≤ h ∧ h ≤ 14 ∧ p < 2 ^ 64 := by
  have hfield (n : Nat) (hn : n ≤ 8) : getBE ((data.drop 2).take n) < 2 ^ 64 := by
    refine (getBE_lt _).trans_le ?_
    have hpow : 256 ^ ((data.drop 2).take n).length ≤ 256 ^ 8 :=
      Nat.pow_le_pow_right (by omega) (by rw [List.length_take]; omega)
    exact hpow
  unfold exactHeader at heq
  simp only at heq
  split at heq
  · cases heq
  · split at heq
    · split at heq
      · cases heq
      · cases heq
        exact ⟨by omega, by split <;> omega, hfield 2 (by omega)⟩
    · split at heq
      · split at heq
        · cases heq
        · cases heq
          exact ⟨by omega, by split <;> omega, hfield 8 (by omega)⟩
      · cases heq
        exact ⟨by omega, by split <;> omega, by omega⟩

theorem exactSize_some {s : Nat} (h : exactSize data = some s) :
    ∃ headerSize payloadLength, exactHeader data = some (headerSize, payloadLength) ∧ s = headerSize + payloadLength := by
  obtain ⟨⟨headerSize, payloadLength⟩, heq, rfl⟩ := Option.map_eq_some_iff.1 h
  exact ⟨headerSize, payloadLength, heq, rfl⟩

/-! ## The accesses are those of the parser -/

theorem byteAt_of_lt {i : Nat} (h : i < data.length) : byteAt data i = .ok (data.getD i 0) := by
  simp [byteAt, h]

theorem bytesFrom_eq (data : Bytes) (i n : Nat) (h : i + n ≤ data.length) : bytesFrom data i n = .ok ((data.drop i).take n) := by
  induction n generalizing i with
  | zero => rfl
  | succ n ih =>
    have hi : i < data.length := by omega
    rw [bytesFrom, byteAt_of_lt hi, ih (i + 1) (by omega), List.drop_eq_getElem_cons hi, List.take_succ_cons]
    simp [List.getD, hi]
    rfl

theorem checkedHeader_eq (h : 2 ≤ data.length) : checkedHeader data = .ok (header data) := by
  unfold checkedHeader header maskSize
  rw [byteAt_of_lt (by omega)]
  simp only [if_neg (show ¬ data.length < 2 by omega)]
  show (if data.getD 1 0 &&& 0x7f = 126 then _ else _) = _
  split
  · split
    · rfl
    · rw [bytesFrom_eq data 2 2 (by omega)]
      rfl
  · split
    · split
      · rfl
      · rw [bytesFrom_eq data 2 8 (by omega)]
        rfl
    · rfl

theorem exactHeader_masked {h p : Nat} (heq : exactHeader data = some (h, p)) (hmasked : ¬ (data.getD 1 0).toNat < 128) :
    6 ≤ h := by
  unfold exactHeader at heq
  simp only [if_neg hmasked] at heq
  split at heq
  · cases heq
  · split at heq
    · split at heq
      · cases heq
      · cases heq
        omega
    · split at heq
      · split at heq
        · cases heq
        · cases heq
          omega
      · cases heq
        omega

theorem ok_iff_ok {ε ε' α : Type} {a b : α} : (.ok a : Except ε α) = .ok b ↔ (.ok a : Except ε' α) = .ok b := by
  rw [Except.ok.injEq, Except.ok.injEq]

/-- The two parsers are one, but for what they say of an access out of range. -/
theorem checkedParse_ok_iff (message : Bytes) : checkedParse data = .ok message ↔ parseWebSocketFrame data = .ok message := by
  unfold checkedParse parseWebSocketFrame opcode
  by_cases hshort : data.length < 2
  · rw [if_pos hshort, if_pos hshort]
    exact ok_iff_ok
  · rw [if_neg hshort, if_neg hshort, byteAt_of_lt (show 0 < data.length by omega), byteAt_of_lt (show 1 < data.length by omega),
      checkedHeader_eq (by omega)]
    show (if data.getD 0 0 &&& 0x0f ≠ 1 then _ else _) = _ ↔ _
    by_cases hopcode : data.getD 0 0 &&& 0x0f ≠ 1
    · rw [if_pos hopcode, if_pos hopcode]
      exact ok_iff_ok
    · rw [if_neg hopcode, if_neg hopcode]
      cases hheader : header data with
      | none => exact ok_iff_ok
      | some p =>
        obtain ⟨headerSize, payloadLength⟩ := p
        have hexact : exactHeader data = some (headerSize.toNat, payloadLength.toNat) := by
          rw [exactHeader_eq, hheader]
          rfl
        show (if data.length < (headerSize + payloadLength).toNat then _ else _) = _ ↔ _
        simp only
        by_cases hpartial : data.length < (headerSize + payloadLength).toNat
        · rw [if_pos hpartial, if_pos hpartial]
          exact ok_iff_ok
        · rw [if_neg hpartial, if_neg hpartial]
          unfold substr
          by_cases hbehind : data.length < headerSize.toNat
          · rw [if_pos hbehind, if_pos hbehind]
            exact ⟨fun h => (by cases h), fun h => (by cases h)⟩
          · rw [if_neg hbehind, if_neg hbehind]
            by_cases hmask : data.getD 1 0 &&& 0x80 = 0
            · rw [if_pos hmask]
              show (if data.getD 1 0 &&& 0x80 = 0 then _ else _) = _ ↔ _
              rw [if_pos hmask]
              exact ok_iff_ok
            · have hsix := exactHeader_masked hexact (by rwa [← maskBit_eq_zero_iff])
              rw [if_neg hmask]
              show (if data.getD 1 0 &&& 0x80 = 0 then _ else _) = _ ↔ _
              rw [if_neg hmask, bytesFrom_eq data _ 4 (by omega)]
              exact ok_iff_ok

/-! ## What a cut is -/

theorem header_isSome (h : completeFrameSize data ≠ 0) : ∃ headerSize payloadLength, header data = some (headerSize, payloadLength) := by
  unfold completeFrameSize at h
  cases hheader : header data with
  | none =>
    rw [hheader] at h
    exact absurd rfl h
  | some p => exact ⟨p.1, p.2, rfl⟩

/-- A frame whose size is exact is parsed. -/
theorem parse_ok_of_exact {s : Nat} (hsize : exactSize data = some s) (hle : s ≤ data.length) (hfits : s < 2 ^ 64) :
    ∃ message, parseWebSocketFrame (data.take s) = .ok message := by
  have hs : (completeFrameSize data).toNat = s := by
    rw [toNat_completeFrameSize, hsize]
    exact Nat.mod_eq_of_lt hfits
  obtain ⟨h, p, hexact, rfl⟩ := exactSize_some hsize
  have hbounds := exactHeader_bounds hexact
  have hne : completeFrameSize data ≠ 0 := by
    intro h0
    rw [h0] at hs
    have : (0 : UInt64).toNat = 0 := rfl
    omega
  have hnowrap : wraps data = false := by
    obtain ⟨headerSize, payloadLength, hheader⟩ := header_isSome hne
    rw [exactHeader_eq, hheader] at hexact
    cases hexact
    have h14 : headerSize = 14 → headerSize.toNat = 14 := by
      rintro rfl
      rfl
    unfold wraps
    rw [hheader]
    grind
  rcases hparse : parseWebSocketFrame (data.take (h + p)) with e | message
  · have hthrows := (parse_error_iff hne (by rwa [hs])).1 ⟨e, by rw [hs]; exact hparse⟩
    rw [hnowrap] at hthrows
    cases hthrows
  · exact ⟨message, rfl⟩

theorem accepts_iff (pending : Bytes) :
    Accepts pending ↔ ∃ s, exactSize pending = some s ∧ 0 < s % 2 ^ 64 ∧ s % 2 ^ 64 ≤ pending.length := by
  have hne : completeFrameSize pending ≠ 0 ↔ 0 < (completeFrameSize pending).toNat := by
    rw [Nat.pos_iff_ne_zero, ne_eq, ne_eq, ← UInt64.toNat_inj]
    rfl
  unfold Accepts
  rw [hne, toNat_completeFrameSize]
  cases exactSize pending with
  | none => simp
  | some s => simp

/-- **The cut is right exactly when no length near 2⁶⁴ makes its size wrap around to that of bytes that are there.** -/
theorem safelySliced_iff (pending : Bytes) :
    (Accepts pending → SafelySliced pending (completeFrameSize pending).toNat) ↔
      ∀ s, exactSize pending = some s → s ≤ 2 ^ 64 ∨ pending.length + 2 ^ 64 < s := by
  rw [accepts_iff]
  constructor
  · intro hsafe s hs
    by_contra hbad
    obtain ⟨h, p, hexact, rfl⟩ := exactSize_some hs
    have hbounds := exactHeader_bounds hexact
    have hmod : (h + p) % 2 ^ 64 = h + p - 2 ^ 64 := by omega
    obtain ⟨h', p', hexact', hn⟩ := (hsafe ⟨_, hs, by omega, by omega⟩).exact_size
    rw [hexact] at hexact'
    cases hexact'
    rw [toNat_completeFrameSize, hs, Option.getD_some, hmod] at hn
    omega
  · rintro hfits ⟨s, hs, hpos, hle⟩
    obtain ⟨h, p, hexact, rfl⟩ := exactSize_some hs
    have hbounds := exactHeader_bounds hexact
    have hlt : h + p < 2 ^ 64 := by
      rcases hfits _ hs with hsmall | hlarge
      · omega
      · omega
    have hmod : (h + p) % 2 ^ 64 = h + p := Nat.mod_eq_of_lt hlt
    rw [hmod] at hle
    rw [toNat_completeFrameSize, hs, Option.getD_some, hmod]
    obtain ⟨message, hmessage⟩ := parse_ok_of_exact hs hle hlt
    refine ⟨⟨h, p, hexact, rfl⟩, ⟨message, (checkedParse_ok_iff message).2 hmessage⟩, ?_⟩
    rw [List.length_drop]
    omega

end

end WebSocketFrame

namespace HandleClient

open WebSocketFrame

section
variable (host : Host) (socket : Nat) (pending : Bytes)

/-! ## The loop -/

/-- The bytes there bound the rounds. -/
theorem exec_drain_of_le {fuel : Nat} (h : pending.length ≤ fuel) (t : ClientThread) :
    exec (drain host socket fuel pending) t = exec (drain host socket pending.length pending) t := by
  induction fuel, h using Nat.le_induction with
  | base => rfl
  | succ fuel hle ih => rw [exec_drain_succ fuel hle, ih]

/-- **Slicing is safe exactly when no length near 2⁶⁴ makes the size of its frame wrap around to one that is there**; the
loop ends anyhow. -/
theorem slicing_safe_iff :
    ((Accepts pending → SafelySliced pending (completeFrameSize pending).toNat) ∧
      ∀ fuel t, pending.length ≤ fuel →
        exec (drain host socket fuel pending) t = exec (drain host socket pending.length pending) t) ↔
      ∀ s, exactSize pending = some s → s ≤ 2 ^ 64 ∨ pending.length + 2 ^ 64 < s := by
  rw [← safelySliced_iff]
  exact and_iff_left fun fuel t hfuel => exec_drain_of_le host socket pending hfuel t

/-- Thirteen bytes of it are taken for the frame. -/
theorem wrapped_frame_sliced : Accepts wrappedFrame ∧ (completeFrameSize wrappedFrame).toNat = 13 ∧
    exactSize wrappedFrame = some (2 ^ 64 + 13) ∧ checkedParse (wrappedFrame.take 13) = .error (.substr 14 13) ∧
    ¬ SafelySliced wrappedFrame (completeFrameSize wrappedFrame).toNat := by
  have hparse : checkedParse (wrappedFrame.take 13) = .error (.substr 14 13) := by decide
  refine ⟨by decide, by decide, by decide +kernel, hparse, ?_⟩
  rintro ⟨-, ⟨message, hmessage⟩, -⟩
  have hthirteen : (completeFrameSize wrappedFrame).toNat = 13 := by decide
  rw [hthirteen, hparse] at hmessage
  cases hmessage

end

end HandleClient

end OriginDB
