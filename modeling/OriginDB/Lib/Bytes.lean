import Mathlib.Algebra.Order.Ring.Int
import Mathlib.Tactic.Common
/-!
# Byte strings: integers, bounded readers, length-prefixed frames

A reader consumes bytes from the front of a string and fails when it asks for more than is left.
`Reads r bs a` says that `r` turns the encoding `bs` into `a` and leaves whatever follows alone;
the composition rules below make a round trip of a compound format the composition of the round
trips of its parts. A sequence of length-prefixed frames is what repeated `lenBytes` reads off;
`frames` splits a string into its whole frames and the torn rest.
-/
namespace ByteCodec

abbrev Bytes := List UInt8

/-- Decided along the string, not along the 256 bytes. -/
instance (priority := 2000) (p : UInt8 → Prop) [DecidablePred p] (s : Bytes) : Decidable (∀ c ∈ s, p c) := List.decidableBAll p s

/-! ## Little-endian integers -/

/-- The low `k` bytes of `v`, least significant first. -/
def putLE : Nat → Nat → Bytes
  | 0, _ => []
  | k + 1, v => UInt8.ofNat v :: putLE k (v / 256)

def getLE : Bytes → Nat
  | [] => 0
  | b :: bs => b.toNat + 256 * getLE bs

@[simp] theorem length_putLE (k v : Nat) : (putLE k v).length = k := by
  induction k generalizing v with
  | zero => rfl
  | succ k ih => simp [putLE, ih]

theorem getLE_putLE (k v : Nat) : getLE (putLE k v) = v % 256 ^ k := by
  induction k generalizing v with
  | zero => simp [putLE, getLE, Nat.mod_one]
  | succ k ih =>
    have hpow : 256 ^ (k + 1) = 256 * 256 ^ k := by rw [Nat.pow_succ, Nat.mul_comm]
    simp only [putLE, getLE, ih, UInt8.toNat_ofNat']
    rw [hpow, Nat.mod_mul]

theorem getLE_putLE_of_lt {k v : Nat} (h : v < 256 ^ k) : getLE (putLE k v) = v := by
  rw [getLE_putLE, Nat.mod_eq_of_lt h]

theorem getLE_lt (bs : Bytes) : getLE bs < 256 ^ bs.length := by
  induction bs with
  | nil => simp [getLE]
  | cons b bs ih =>
    have hb := b.toNat_lt
    simp only [getLE, List.length_cons, Nat.pow_succ]
    omega

theorem putLE_getLE (bs : Bytes) : putLE bs.length (getLE bs) = bs := by
  induction bs with
  | nil => rfl
  | cons b bs ih =>
    have hb := b.toNat_lt
    have hmod : UInt8.ofNat (b.toNat + 256 * getLE bs) = b := by
      apply UInt8.toNat_inj.1
      rw [UInt8.toNat_ofNat']
      omega
    have hdiv : (b.toNat + 256 * getLE bs) / 256 = getLE bs := by omega
    simp only [List.length_cons, putLE, getLE, hmod, hdiv, ih]

/-! ## Big-endian integers -/

/-- The low `k` bytes of `v`, most significant first. -/
def putBE (k v : Nat) : Bytes := (putLE k v).reverse

def getBE (bs : Bytes) : Nat := getLE bs.reverse

@[simp] theorem length_putBE (k v : Nat) : (putBE k v).length = k := by simp [putBE]

theorem getBE_putBE_of_lt {k v : Nat} (h : v < 256 ^ k) : getBE (putBE k v) = v := by
  rw [getBE, putBE, List.reverse_reverse, getLE_putLE_of_lt h]

theorem getBE_lt (bs : Bytes) : getBE bs < 256 ^ bs.length := by
  have h := getLE_lt bs.reverse
  rwa [List.length_reverse] at h

theorem getBE_eq_foldl (bs : Bytes) : getBE bs = bs.foldl (fun v b => v * 256 + b.toNat) 0 := by
  suffices h : ∀ cs : Bytes, getLE cs = cs.foldr (fun b v => v * 256 + b.toNat) 0 by
    rw [getBE, h, List.foldr_reverse]
  intro cs
  induction cs with
  | nil => rfl
  | cons c cs ih =>
    rw [getLE, List.foldr_cons, ← ih]
    omega

/-! ## Readers -/

abbrev Reader := StateT Bytes Option

namespace Reader

/-- Exactly `n` bytes, or failure. -/
def take (n : Nat) : Reader Bytes := fun s =>
  if s.length < n then none else some (s.take n, s.drop n)

def u8 : Reader UInt8 := fun s =>
  match s with
  | [] => none
  | b :: bs => some (b, bs)

def u32 : Reader Nat := getLE <$> take 4

def u64 : Reader Nat := getLE <$> take 8

/-- A `u32` length and that many bytes. -/
def lenBytes : Reader Bytes := do
  let n ← u32
  take n

end Reader

/-- `r` decodes `bs` to `a`, whatever follows. -/
def Reads {α : Type} (r : Reader α) (bs : Bytes) (a : α) : Prop :=
  ∀ rest, r (bs ++ rest) = some (a, rest)

section Reads
variable {α β : Type} {r : Reader α} {bs cs : Bytes} {a : α}

theorem Reads.pure (a : α) : Reads (Pure.pure a) [] a := fun _ => rfl

theorem Reads.bind {f : α → Reader β} {b : β} (hr : Reads r bs a) (hf : Reads (f a) cs b) :
    Reads (r >>= f) (bs ++ cs) b := by
  intro rest
  show (r >>= f).run (bs ++ cs ++ rest) = _
  have h1 : r.run (bs ++ (cs ++ rest)) = some (a, cs ++ rest) := hr _
  have h2 : (f a).run (cs ++ rest) = some (b, rest) := hf _
  rw [StateT.run_bind, List.append_assoc, h1, Option.bind_eq_bind, Option.bind_some, h2]

theorem Reads.map {f : α → β} (hr : Reads r bs a) : Reads (f <$> r) bs (f a) := by
  intro rest
  show (f <$> r).run (bs ++ rest) = _
  have h1 : r.run (bs ++ rest) = some (a, rest) := hr _
  rw [StateT.run_map, h1]
  rfl

theorem reads_take (bs : Bytes) : Reads (Reader.take bs.length) bs bs := by
  intro rest
  simp [Reader.take]

theorem reads_u8 (b : UInt8) : Reads Reader.u8 [b] b := fun _ => rfl

theorem reads_u32 {n : Nat} (h : n < 2 ^ 32) : Reads Reader.u32 (putLE 4 n) n := by
  have ht := (reads_take (putLE 4 n)).map (f := getLE)
  rwa [length_putLE, getLE_putLE_of_lt (by simpa using h)] at ht

theorem reads_u64 {n : Nat} (h : n < 2 ^ 64) : Reads Reader.u64 (putLE 8 n) n := by
  have ht := (reads_take (putLE 8 n)).map (f := getLE)
  rwa [length_putLE, getLE_putLE_of_lt (by simpa using h)] at ht

end Reads

/-! ## What a reader has taken -/

theorem take_length {n : Nat} {s a rest : Bytes} (h : Reader.take n s = some (a, rest)) :
    s.length = n + rest.length := by
  unfold Reader.take at h
  split at h
  · cases h
  · cases h
    rw [List.length_drop]
    omega

theorem u64_length {s rest : Bytes} {v : Nat} (h : Reader.u64 s = some (v, rest)) : s.length = 8 + rest.length := by
  change (getLE <$> Reader.take 8).run s = _ at h
  rw [StateT.run_map] at h
  obtain ⟨⟨a, mid⟩, h1, h2⟩ := Option.map_eq_some_iff.1 h
  cases h2
  exact take_length h1

/-! ## Length-prefixed byte strings -/

/-- The length as a `u32` (so modulo `2 ^ 32`), then the bytes. -/
def lenPrefixed (p : Bytes) : Bytes := putLE 4 p.length ++ p

@[simp] theorem length_lenPrefixed (p : Bytes) : (lenPrefixed p).length = 4 + p.length := by
  simp [lenPrefixed]

theorem reads_lenBytes {p : Bytes} (h : p.length < 2 ^ 32) : Reads Reader.lenBytes (lenPrefixed p) p :=
  (reads_u32 h).bind (reads_take p)

theorem lenBytes_eq (s : Bytes) :
    Reader.lenBytes s =
      if s.length < 4 then none
      else if (s.drop 4).length < getLE (s.take 4) then none
      else some ((s.drop 4).take (getLE (s.take 4)), (s.drop 4).drop (getLE (s.take 4))) := by
  show Reader.lenBytes.run s = _
  simp only [Reader.lenBytes, Reader.u32, StateT.run_bind, StateT.run_map]
  by_cases h : s.length < 4
  · have ht : (Reader.take 4).run s = none := if_pos h
    simp [ht, h]
  · have ht : (Reader.take 4).run s = some (s.take 4, s.drop 4) := if_neg h
    simp only [ht, h, if_false, Option.map_eq_map, Option.map_some, Option.bind_eq_bind, Option.bind_some]
    rfl

/-- What `lenBytes` accepts is exactly a length-prefixed string and its rest. -/
theorem lenBytes_eq_some {s p rest : Bytes} (h : Reader.lenBytes s = some (p, rest)) :
    p.length < 2 ^ 32 ∧ s = lenPrefixed p ++ rest := by
  rw [lenBytes_eq] at h
  split at h
  · cases h
  rename_i h4
  split at h
  · cases h
  rename_i hn
  simp only [Option.some.injEq, Prod.mk.injEq] at h
  obtain ⟨rfl, rfl⟩ := h
  have hlen4 : (s.take 4).length = 4 := by simp only [List.length_take]; omega
  have hlt := getLE_lt (s.take 4)
  rw [hlen4] at hlt
  have hlen : ((s.drop 4).take (getLE (s.take 4))).length = getLE (s.take 4) := by
    rw [List.length_take]; omega
  refine ⟨by rw [hlen]; simpa using hlt, ?_⟩
  have hput : putLE 4 (getLE (s.take 4)) = s.take 4 := by
    have h := putLE_getLE (s.take 4)
    rwa [hlen4] at h
  rw [lenPrefixed, hlen, hput, List.append_assoc, List.take_append_drop, List.take_append_drop]

theorem lenBytes_lenPrefixed {p : Bytes} (h : p.length < 2 ^ 32) (rest : Bytes) :
    Reader.lenBytes (lenPrefixed p ++ rest) = some (p, rest) := reads_lenBytes h rest

/-- A length-prefixed string cut anywhere before its end is not read. -/
theorem lenBytes_take_none {p rest : Bytes} {n : Nat} (hp : p.length < 2 ^ 32) (hn : n < 4 + p.length) :
    Reader.lenBytes ((lenPrefixed p ++ rest).take n) = none := by
  rw [lenBytes_eq]
  split
  · rfl
  rename_i h4
  have hlen : (lenPrefixed p ++ rest).length = 4 + p.length + rest.length := by simp
  rw [List.length_take, hlen] at h4
  have hhead : ((lenPrefixed p ++ rest).take n).take 4 = putLE 4 p.length := by
    rw [List.take_take, Nat.min_eq_left (by omega), lenPrefixed, List.append_assoc,
      List.take_left' (length_putLE 4 _)]
  rw [hhead, getLE_putLE_of_lt (by simpa using hp), if_pos]
  rw [List.length_drop, List.length_take, hlen]
  omega

/-! ## Sequences of frames -/

/-- Whole frames from the front, and the rest no frame can be read from. -/
def framesAux : Nat → Bytes → List Bytes × Bytes
  | 0, s => ([], s)
  | fuel + 1, s =>
    match Reader.lenBytes s with
    | none => ([], s)
    | some (p, rest) => (p :: (framesAux fuel rest).1, (framesAux fuel rest).2)

/-- Every frame takes at least four bytes, so the length of the string is fuel enough. -/
def frames (s : Bytes) : List Bytes × Bytes := framesAux s.length s

theorem lenBytes_length {s p rest : Bytes} (h : Reader.lenBytes s = some (p, rest)) :
    s.length = 4 + p.length + rest.length := by
  rw [(lenBytes_eq_some h).2]; simp

theorem framesAux_fuel : ∀ (f g : Nat) (s : Bytes), s.length ≤ f → s.length ≤ g →
    framesAux f s = framesAux g s
  | 0, 0, _, _, _ => rfl
  | 0, g + 1, s, hf, _ => by
    have hs : s = [] := List.length_eq_zero_iff.1 (by omega)
    subst hs; rfl
  | f + 1, 0, s, _, hg => by
    have hs : s = [] := List.length_eq_zero_iff.1 (by omega)
    subst hs; rfl
  | f + 1, g + 1, s, hf, hg => by
    simp only [framesAux]
    cases h : Reader.lenBytes s with
    | none => rfl
    | some pr =>
      obtain ⟨p, rest⟩ := pr
      have hl := lenBytes_length h
      simp only [framesAux_fuel f g rest (by omega) (by omega)]

theorem frames_of_none {s : Bytes} (h : Reader.lenBytes s = none) : frames s = ([], s) := by
  unfold frames
  cases s.length with
  | zero => rfl
  | succ n => simp [framesAux, h]

theorem frames_of_some {s p rest : Bytes} (h : Reader.lenBytes s = some (p, rest)) :
    frames s = (p :: (frames rest).1, (frames rest).2) := by
  have hl := lenBytes_length h
  unfold frames
  obtain ⟨n, hn⟩ : ∃ n, s.length = n + 1 := ⟨s.length - 1, by omega⟩
  rw [hn]
  simp only [framesAux, h]
  rw [framesAux_fuel n rest.length rest (by omega) (Nat.le_refl _)]

@[simp] theorem frames_nil : frames [] = ([], []) := rfl

theorem frames_cons {p : Bytes} (h : p.length < 2 ^ 32) (rest : Bytes) :
    frames (lenPrefixed p ++ rest) = (p :: (frames rest).1, (frames rest).2) :=
  frames_of_some (lenBytes_lenPrefixed h rest)

theorem frames_flatMap (ps : List Bytes) (h : ∀ p ∈ ps, p.length < 2 ^ 32) (rest : Bytes) :
    frames (ps.flatMap lenPrefixed ++ rest) = (ps ++ (frames rest).1, (frames rest).2) := by
  induction ps with
  | nil => simp
  | cons p ps ih =>
    rw [List.flatMap_cons, List.append_assoc, frames_cons (h p (by simp)),
      ih (fun q hq => h q (by simp [hq]))]
    simp

/-- A string is its whole frames followed by a rest that starts no frame. -/
theorem frames_spec (s : Bytes) :
    s = (frames s).1.flatMap lenPrefixed ++ (frames s).2 ∧
    (∀ p ∈ (frames s).1, p.length < 2 ^ 32) ∧ Reader.lenBytes (frames s).2 = none := by
  induction hn : s.length using Nat.strongRecOn generalizing s with
  | ind n ih =>
    cases h : Reader.lenBytes s with
    | none =>
      rw [frames_of_none h]
      exact ⟨rfl, by simp, h⟩
    | some pr =>
      obtain ⟨p, rest⟩ := pr
      have hl := lenBytes_length h
      obtain ⟨hp, hs⟩ := lenBytes_eq_some h
      obtain ⟨h1, h2, h3⟩ := ih rest.length (by omega) rest rfl
      rw [frames_of_some h]
      refine ⟨?_, ?_, h3⟩
      · simp only [List.flatMap_cons, List.append_assoc]
        rw [← h1]; exact hs
      · intro q hq
        rcases List.mem_cons.1 hq with rfl | hq
        · exact hp
        · exact h2 q hq

/-- Appending to a string leaves its whole frames in place and continues in its torn rest. -/
theorem frames_append (s x : Bytes) :
    frames (s ++ x) = ((frames s).1 ++ (frames ((frames s).2 ++ x)).1, (frames ((frames s).2 ++ x)).2) := by
  obtain ⟨hs, hlt, _⟩ := frames_spec s
  conv_lhs => rw [hs, List.append_assoc]
  exact frames_flatMap _ hlt _

/-- How many of the frames `ps` lie entirely within the first `n` bytes. -/
def wholeFrames : List Bytes → Nat → Nat
  | [], _ => 0
  | p :: ps, n => if 4 + p.length ≤ n then wholeFrames ps (n - (4 + p.length)) + 1 else 0

/-- **A cut loses only the frames it does not contain.** -/
theorem frames_take (ps : List Bytes) (h : ∀ p ∈ ps, p.length < 2 ^ 32) (n : Nat) :
    (frames ((ps.flatMap lenPrefixed).take n)).1 = ps.take (wholeFrames ps n) := by
  induction ps generalizing n with
  | nil => simp [wholeFrames]
  | cons p ps ih =>
    have hp := h p (by simp)
    simp only [List.flatMap_cons, wholeFrames]
    split
    · rename_i hn
      have ht : (lenPrefixed p ++ ps.flatMap lenPrefixed).take n =
          lenPrefixed p ++ (ps.flatMap lenPrefixed).take (n - (4 + p.length)) := by
        rw [List.take_append, List.take_of_length_le (by simpa using hn), length_lenPrefixed]
      rw [ht, frames_cons hp, ih (fun q hq => h q (by simp [hq])), List.take_succ_cons]
    · rename_i hn
      rw [frames_of_none (lenBytes_take_none hp (by omega))]
      rfl

end ByteCodec
