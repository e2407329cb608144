import OriginDB.Lib.Bytes
/-!
# Decoders with a pointer

A decoder in C++ walks a buffer with a pointer and asks before it reads whether enough bytes are left. Here a read
beyond the end is an outcome of its own, `overrun`, next to the exception the decoder throws. `Tracks s r` says that the
decoder `s` does with its pointer what the reader `r` does on the bytes behind it, and then `s` never overruns;
the rules below compose it along the decoder.
-/
namespace ByteCodec

/-- How a decoder ends without a result. -/
inductive Stop where
  | thrown
  | overrun
deriving DecidableEq

/-- A decoder over a buffer, from one position of its pointer to the next. -/
abbrev Pointer := ReaderT Bytes (StateT Nat (Except Stop))

namespace Pointer

/-- Throws when fewer than `n` bytes are left. -/
def need (n : Nat) : Pointer Unit := fun buf p =>
  if buf.length - p < n then .error .thrown else .ok ((), p)

/-- The `n` bytes at the pointer, whether they are there or not. -/
def peek (n : Nat) : Pointer Bytes := fun buf p =>
  if n ≠ 0 ∧ buf.length < p + n then .error .overrun else .ok ((buf.drop p).take n, p)

def advance (n : Nat) : Pointer Unit := fun _ p => .ok ((), p + n)

/-- `n` bytes that are asked for first. -/
def take (n : Nat) : Pointer Bytes := do
  need n
  let bs ← peek n
  advance n
  return bs

def u8 : Pointer UInt8 := do
  need 1
  let bs ← peek 1
  advance 1
  return bs.headD 0

def u32 : Pointer Nat := getLE <$> take 4

def u64 : Pointer Nat := getLE <$> take 8

/-- A `u32` length and that many bytes. -/
def lenBytes : Pointer Bytes := do
  let n ← u32
  take n

def fail {α : Type} : Pointer α := fun _ _ => .error .thrown

/-- The same thing so many times. -/
def times {α : Type} (s : Pointer α) : Nat → Pointer (List α)
  | 0 => pure []
  | count + 1 => do
    let a ← s
    let l ← times s count
    return a :: l

/-- The outcome of a decoder that reads no further than it may: `none` is its exception. -/
def within {α : Type} : Option α → Except Stop α
  | none => .error .thrown
  | some a => .ok a

/-- What the decoder makes of a whole buffer. -/
def decode {α : Type} (s : Pointer α) (buf : Bytes) : Except Stop α := (s buf 0).map Prod.fst

end Pointer

namespace Reader

/-- The same thing so many times. -/
def times {α : Type} (r : Reader α) : Nat → Reader (List α)
  | 0 => pure []
  | count + 1 => do
    let a ← r
    let l ← times r count
    return a :: l

end Reader

theorem Reads.times {α : Type} {r : Reader α} {encode : α → Bytes} {l : List α}
    (h : ∀ a ∈ l, Reads r (encode a) a) : Reads (r.times l.length) (l.flatMap encode) l := by
  induction l with
  | nil => exact Reads.pure []
  | cons a l ih =>
    have htail : Reads (r.times l.length) (l.flatMap encode) l := ih fun b hb => h b (List.mem_cons_of_mem a hb)
    have hrest : Reads (do let l ← r.times l.length; Pure.pure (a :: l)) (l.flatMap encode ++ []) (a :: l) :=
      htail.bind (Reads.pure (a :: l))
    have hall : Reads (r.times (l.length + 1)) (encode a ++ (l.flatMap encode ++ [])) (a :: l) :=
      (h a List.mem_cons_self).bind (f := fun a => do let l ← r.times l.length; Pure.pure (a :: l)) hrest
    rwa [List.append_nil] at hall

/-! ## A pointer that stays within its buffer -/

/-- `s` does at a pointer what `r` does on the bytes from there on. -/
def Tracks {α : Type} (s : Pointer α) (r : Reader α) : Prop :=
  ∀ (buf : Bytes) (p : Nat), p ≤ buf.length →
    match r (buf.drop p) with
    | none => s buf p = .error .thrown
    | some (a, rest) => ∃ q, q ≤ buf.length ∧ rest = buf.drop q ∧ s buf p = .ok (a, q)

section
variable {α β : Type} {s : Pointer α} {r : Reader α}

theorem Tracks.pure (a : α) : Tracks (Pure.pure a) (Pure.pure a) := by
  intro buf p hp
  exact ⟨p, hp, rfl, rfl⟩

theorem Tracks.fail : Tracks (Pointer.fail (α := α)) failure := by
  intro buf p hp
  rfl

theorem Tracks.bind {f : α → Pointer β} {g : α → Reader β} (h : Tracks s r) (hf : ∀ a, Tracks (f a) (g a)) :
    Tracks (s >>= f) (r >>= g) := by
  intro buf p hp
  have hs := h buf p hp
  have hrun : (r >>= g) (buf.drop p) = (r (buf.drop p)).bind fun (a, rest) => g a rest := rfl
  have hbind : (s >>= f) buf p = (s buf p).bind fun (a, q) => f a buf q := rfl
  rw [hrun, hbind]
  cases hr : r (buf.drop p) with
  | none =>
    rw [hr] at hs
    rw [hs]
    rfl
  | some found =>
    obtain ⟨a, rest⟩ := found
    rw [hr] at hs
    obtain ⟨q, hq, rfl, hok⟩ := hs
    rw [hok]
    exact hf a buf q hq

theorem Tracks.map {f : α → β} (h : Tracks s r) : Tracks (f <$> s) (f <$> r) := h.bind fun a => Tracks.pure (f a)

theorem tracks_take (n : Nat) : Tracks (Pointer.take n) (Reader.take n) := by
  intro buf p hp
  unfold Reader.take
  rw [List.length_drop]
  by_cases hn : buf.length - p < n
  · have hneed : Pointer.need n buf p = .error .thrown := if_pos hn
    have htake : Pointer.take n buf p = (Pointer.need n buf p).bind fun (_, p) =>
        (Pointer.peek n buf p).bind fun (bs, p) => .ok (bs, p + n) := rfl
    rw [if_pos hn, htake, hneed]
    rfl
  · have hneed : Pointer.need n buf p = .ok ((), p) := if_neg hn
    have hpeek : Pointer.peek n buf p = .ok ((buf.drop p).take n, p) := if_neg (by omega)
    have htake : Pointer.take n buf p = (Pointer.need n buf p).bind fun (_, p) =>
        (Pointer.peek n buf p).bind fun (bs, p) => .ok (bs, p + n) := rfl
    rw [if_neg hn, htake, hneed]
    refine ⟨p + n, by omega, by rw [List.drop_drop], ?_⟩
    show (Pointer.peek n buf p).bind _ = _
    rw [hpeek]
    rfl

theorem tracks_u8 : Tracks Pointer.u8 Reader.u8 := by
  intro buf p hp
  have hu8 : Pointer.u8 buf p = (Pointer.take 1 buf p).map fun (bs, q) => (bs.headD 0, q) := by
    unfold Pointer.u8 Pointer.take
    show (Pointer.need 1 buf p).bind _ = ((Pointer.need 1 buf p).bind _).map _
    cases Pointer.need 1 buf p with
    | error e => rfl
    | ok found =>
      show (Pointer.peek 1 buf found.2).bind _ = ((Pointer.peek 1 buf found.2).bind _).map _
      cases Pointer.peek 1 buf found.2 <;> rfl
  have htake := tracks_take 1 buf p hp
  rw [hu8]
  unfold Reader.take at htake
  unfold Reader.u8
  cases hrest : buf.drop p with
  | nil =>
    rw [hrest] at htake
    rw [htake]
    rfl
  | cons b bs =>
    rw [hrest, if_neg (by simp)] at htake
    obtain ⟨q, hq, hbs, hok⟩ := htake
    rw [hok]
    exact ⟨q, hq, hbs, rfl⟩

theorem tracks_u32 : Tracks Pointer.u32 Reader.u32 := (tracks_take 4).map

theorem tracks_u64 : Tracks Pointer.u64 Reader.u64 := (tracks_take 8).map

theorem tracks_lenBytes : Tracks Pointer.lenBytes Reader.lenBytes := tracks_u32.bind tracks_take

theorem Tracks.times (h : Tracks s r) (count : Nat) : Tracks (s.times count) (r.times count) := by
  induction count with
  | zero => exact Tracks.pure []
  | succ count ih => exact h.bind fun a => ih.bind fun l => Tracks.pure (a :: l)

/-- **A decoder that tracks a reader never looks beyond its buffer.** -/
theorem Tracks.decode (h : Tracks s r) (buf : Bytes) :
    s.decode buf = Pointer.within ((r buf).map Prod.fst) := by
  have hs := h buf 0 (Nat.zero_le _)
  rw [List.drop_zero] at hs
  unfold Pointer.decode
  cases hr : r buf with
  | none =>
    rw [hr] at hs
    rw [hs]
    rfl
  | some found =>
    rw [hr] at hs
    obtain ⟨q, -, -, hok⟩ := hs
    rw [hok]
    rfl

theorem Tracks.ne_overrun (h : Tracks s r) (buf : Bytes) : s.decode buf ≠ .error .overrun := by
  rw [h.decode]
  cases (r buf).map Prod.fst <;> simp [Pointer.within]

end

/-! ## Encodings cut short -/

/-- What a reader takes does not depend on what comes behind it. -/
def Forward {α : Type} (r : Reader α) : Prop :=
  ∀ (s : Bytes) (a : α) (rest : Bytes), r s = some (a, rest) → ∀ x, r (s ++ x) = some (a, rest ++ x)

section
variable {α β : Type} {r : Reader α}

theorem Forward.pure (a : α) : Forward (Pure.pure a : Reader α) := by
  intro s b rest h x
  cases h
  rfl

theorem Forward.fail : Forward (failure : Reader α) := by
  intro s a rest h
  cases h

theorem Forward.bind {f : α → Reader β} (h : Forward r) (hf : ∀ a, Forward (f a)) : Forward (r >>= f) := by
  intro s b rest hs x
  have hrun : ∀ s, (r >>= f) s = (r s).bind fun (a, mid) => f a mid := fun _ => rfl
  rw [hrun] at hs ⊢
  obtain ⟨⟨a, mid⟩, hr, hmid⟩ := Option.bind_eq_some_iff.1 hs
  rw [h s a mid hr x]
  exact hf a mid b rest hmid x

theorem Forward.map {f : α → β} (h : Forward r) : Forward (f <$> r) := h.bind fun a => Forward.pure (f a)

theorem forward_take (n : Nat) : Forward (Reader.take n) := by
  intro s a rest h x
  unfold Reader.take at h ⊢
  split at h
  · cases h
  · rename_i hn
    cases h
    rw [if_neg (by rw [List.length_append]; omega), List.take_append_of_le_length (by omega),
      List.drop_append_of_le_length (by omega)]

theorem forward_u8 : Forward Reader.u8 := by
  intro s a rest h x
  cases s with
  | nil => cases h
  | cons b bs =>
    cases h
    rfl

theorem forward_u32 : Forward Reader.u32 := (forward_take 4).map

theorem forward_u64 : Forward Reader.u64 := (forward_take 8).map

theorem forward_lenBytes : Forward Reader.lenBytes := forward_u32.bind forward_take

theorem Forward.times (h : Forward r) (count : Nat) : Forward (r.times count) := by
  induction count with
  | zero => exact Forward.pure []
  | succ count ih => exact h.bind fun a => ih.bind fun l => Forward.pure (a :: l)

/-- **An encoding that is cut short is not read.** -/
theorem Reads.cut {bs : Bytes} {a : α} (h : Reads r bs a) (hr : Forward r) {n : Nat} (hn : n < bs.length) :
    r (bs.take n) = none := by
  cases hcut : r (bs.take n) with
  | none => rfl
  | some found =>
    obtain ⟨b, rest⟩ := found
    have hwhole := hr _ b rest hcut (bs.drop n)
    have hread := h []
    rw [List.append_nil] at hread
    rw [List.take_append_drop, hread] at hwhole
    have hlen := congrArg List.length (Prod.mk.inj (Option.some.inj hwhole)).2
    rw [List.length_append, List.length_drop, List.length_nil] at hlen
    omega

end

end ByteCodec
