import OriginDB.Lib.Bytes
import OriginDB.Lib.LinearMemory
/-!
# Guest memory as the host functions read and write it (`src/wasm/host_functions.cpp:26-102`)

The memory is its bytes as they are at the moment; the allocator of the guest is any function that is given the memory and a
size, leaves some memory, and returns a pointer or does not return. A copy that leaves the memory ends the run `nowhere`:
what the host holds behind it is not modelled.

`WriteBytes` checks the length modulo 2³² and copies all of it. So a write stays within the memory exactly when it is not the
case that the end is within the memory for the check and outside it for the copy (`Overruns`), which takes a string of 2³²
bytes at least. The reads take a length of 32 bits, and stay within the memory.
-/
namespace OriginDB.Wasm

open ByteCodec LinearMemory

abbrev Memory := Bytes

/-! ## `GuestMem` -/

/-- `InBounds` (`:33`). -/
def inBounds (m : Memory) (ptr len : UInt32) : Bool := ptr.toNat + len.toNat ≤ m.length

/-- `ReadBytes` (`:39`). -/
def readBytes (m : Memory) (ptr len : UInt32) : Access (Option Bytes) :=
  if !inBounds m ptr len then .value none else some <$> copyFrom m ptr.toNat len.toNat

/-- `ReadCString` (`:47`): once a terminator is found within `cap` bytes, the text ends at the first there is. -/
def readCString (m : Memory) (ptr : UInt32) (cap : Nat) : Access (Option Bytes) :=
  if m.length ≤ ptr.toNat then .value none
  else
    let limit := min (m.length - ptr.toNat) cap
    if (slice m ptr.toNat limit).contains 0 then some <$> copyUntil 0 m ptr.toNat else .value none

/-- `WriteBytes` (`:57`). -/
def writeBytes (m : Memory) (ptr : UInt32) (data : Bytes) : Access (Bool × Memory) :=
  if !inBounds m ptr (UInt32.ofNat data.length) then .value (false, m)
  else (fun m => (true, m)) <$> copyTo m ptr.toNat data

/-- `WriteU32` (`:63`). -/
def writeU32 (m : Memory) (ptr value : UInt32) : Access (Bool × Memory) := writeBytes m ptr (putLE 4 value.toNat)

/-! ## `WriteOut` -/

/-- `origindb_alloc` of the guest: the memory it leaves, and its result, if it is neither an error nor a trap. -/
abbrev Allocator := Memory → UInt32 → Memory × Option UInt32

/-- `GuestAlloc` (`:69`). -/
def guestAlloc (alloc : Allocator) (m : Memory) (size : UInt32) : Memory × UInt32 :=
  let (m, result) := alloc m size
  (m, result.getD 0)

/-- The host function goes on with what a write leaves, if it is done. -/
def andThen (write : Access (Bool × Memory)) (f : Memory → Access (Bool × Memory)) : Access (Bool × Memory) := do
  let (ok, m) ← write
  if ok then f m else .value (false, m)

/-- `WriteOut` (`:93`). -/
def writeOut (alloc : Allocator) (m : Memory) (data : Bytes) (outPtr outLen : UInt32) : Access (Bool × Memory) :=
  let (m, buf) := guestAlloc alloc m (UInt32.ofNat data.length)
  if buf = 0 && !data.isEmpty then .value (false, m)
  else
    andThen (if !data.isEmpty then writeBytes m buf data else .value (true, m)) fun m =>
      andThen (writeU32 m outPtr buf) fun m => writeU32 m outLen (UInt32.ofNat data.length)

/-! ## Where the copies go -/

/-- The call ends, so no copy has left the memory, and it returns true exactly when every copy has its place. -/
def Respects (call : Access (Bool × Memory)) (fits : Prop) : Prop := ∃ ok m, call = .value (ok, m) ∧ (ok = true ↔ fits)

/-- The end of the data is within the memory modulo 2³², and is not. -/
def Overruns (m : Memory) (ptr : UInt32) (data : Bytes) : Prop :=
  ptr.toNat + data.length % 2 ^ 32 ≤ m.length ∧ m.length < ptr.toNat + data.length

section
variable {m : Memory} {ptr : UInt32} {data : Bytes}

@[simp] theorem andThen_true (m : Memory) (f : Memory → Access (Bool × Memory)) : andThen (.value (true, m)) f = f m := rfl

@[simp] theorem andThen_false (m : Memory) (f : Memory → Access (Bool × Memory)) :
    andThen (.value (false, m)) f = .value (false, m) := rfl

@[simp] theorem andThen_nowhere (f : Memory → Access (Bool × Memory)) : andThen .nowhere f = .nowhere := rfl

theorem inBounds_iff {len : UInt32} : inBounds m ptr len = true ↔ ptr.toNat + len.toNat ≤ m.length := by
  rw [inBounds, decide_eq_true_eq]

theorem writeBytes_of_refused (h : m.length < ptr.toNat + data.length % 2 ^ 32) : writeBytes m ptr data = .value (false, m) := by
  have hout : inBounds m ptr (UInt32.ofNat data.length) = false := by
    rw [Bool.eq_false_iff, ne_eq, inBounds_iff, UInt32.toNat_ofNat']
    omega
  rw [writeBytes, hout]
  rfl

theorem writeBytes_of_passed (h : ptr.toNat + data.length % 2 ^ 32 ≤ m.length) :
    writeBytes m ptr data = (fun m => (true, m)) <$> copyTo m ptr.toNat data := by
  have hin : inBounds m ptr (UInt32.ofNat data.length) = true := by
    rw [inBounds_iff, UInt32.toNat_ofNat']
    exact h
  rw [writeBytes, hin]
  rfl

theorem writeBytes_of_fits (h : ptr.toNat + data.length ≤ m.length) :
    writeBytes m ptr data = .value (true, overwrite m ptr.toNat data) := by
  have hmod := Nat.mod_le data.length (2 ^ 32)
  rw [writeBytes_of_passed (by omega), copyTo, if_pos h]
  rfl

theorem writeBytes_of_overruns (h : Overruns m ptr data) : writeBytes m ptr data = .nowhere := by
  rw [writeBytes_of_passed h.1, copyTo, if_neg (Nat.not_le.2 h.2)]
  rfl

/-- A string below 4 GiB is written where it has its place, and nowhere else. -/
theorem not_overruns_of_lt (h : data.length < 2 ^ 32) : ¬ Overruns m ptr data := by
  rintro ⟨hpassed, hout⟩
  rw [Nat.mod_eq_of_lt h] at hpassed
  omega

theorem not_respects_nowhere (fits : Prop) : ¬ Respects .nowhere fits := by
  rintro ⟨ok, m, h, -⟩
  cases h

theorem respects_true {fits : Prop} (h : fits) (m : Memory) : Respects (.value (true, m)) fits :=
  ⟨true, m, rfl, fun _ => h, fun _ => rfl⟩

theorem respects_false {fits : Prop} (h : ¬ fits) (m : Memory) : Respects (.value (false, m)) fits :=
  ⟨false, m, rfl, fun hf => (by cases hf), fun hfits => absurd hfits h⟩

theorem writeBytes_respects_iff :
    Respects (writeBytes m ptr data) (ptr.toNat + data.length ≤ m.length) ↔ ¬ Overruns m ptr data := by
  have hmod := Nat.mod_le data.length (2 ^ 32)
  by_cases hover : Overruns m ptr data
  · rw [writeBytes_of_overruns hover]
    exact iff_of_false (not_respects_nowhere _) (not_not_intro hover)
  · refine iff_of_true ?_ hover
    by_cases hfits : ptr.toNat + data.length ≤ m.length
    · rw [writeBytes_of_fits hfits]
      exact respects_true hfits _
    · have hrefused : m.length < ptr.toNat + data.length % 2 ^ 32 := by
        refine Nat.not_le.1 fun hpassed => hover ⟨hpassed, ?_⟩
        omega
      rw [writeBytes_of_refused hrefused]
      exact respects_false hfits m

/-! ### The strings that a host function gives -/

theorem writeU32_of_fits {value : UInt32} (h : ptr.toNat + 4 ≤ m.length) :
    writeU32 m ptr value = .value (true, overwrite m ptr.toNat (putLE 4 value.toNat)) := by
  rw [writeU32, writeBytes_of_fits (by rw [length_putLE]; exact h)]

theorem writeU32_of_refused {value : UInt32} (h : ¬ ptr.toNat + 4 ≤ m.length) : writeU32 m ptr value = .value (false, m) := by
  refine writeBytes_of_refused ?_
  rw [length_putLE]
  omega

/-- The last two copies of `WriteOut`. -/
theorem pointers_respects (m : Memory) (buf n outPtr outLen : UInt32) :
    Respects (andThen (writeU32 m outPtr buf) fun m => writeU32 m outLen n)
      (outPtr.toNat + 4 ≤ m.length ∧ outLen.toNat + 4 ≤ m.length) := by
  by_cases hptr : outPtr.toNat + 4 ≤ m.length
  · have hlength : (overwrite m outPtr.toNat (putLE 4 buf.toNat)).length = m.length :=
      length_overwrite (by rw [length_putLE]; exact hptr)
    rw [writeU32_of_fits hptr, andThen_true]
    by_cases hlen : outLen.toNat + 4 ≤ m.length
    · rw [writeU32_of_fits (by rw [hlength]; exact hlen)]
      exact respects_true ⟨hptr, hlen⟩ _
    · rw [writeU32_of_refused (by rw [hlength]; exact hlen)]
      exact respects_false (fun h => hlen h.2) _
  · rw [writeU32_of_refused hptr, andThen_false]
    exact respects_false (fun h => hptr h.1) m

/-- Each copy of `WriteOut` has its place in the memory that the allocator leaves. -/
structure Placed (m : Memory) (buf : UInt32) (data : Bytes) (outPtr outLen : UInt32) : Prop where
  allocated : data ≠ [] → buf ≠ 0
  data : data ≠ [] → buf.toNat + data.length ≤ m.length
  pointer : outPtr.toNat + 4 ≤ m.length
  length : outLen.toNat + 4 ≤ m.length

theorem Respects.congr {call : Access (Bool × Memory)} {fits fits' : Prop} (h : Respects call fits) (hiff : fits ↔ fits') :
    Respects call fits' := by
  obtain ⟨ok, m, hcall, hok⟩ := h
  exact ⟨ok, m, hcall, hok.trans hiff⟩

variable {alloc : Allocator} {outPtr outLen buf : UInt32} {m₁ : Memory}

theorem writeOut_empty (h : guestAlloc alloc m 0 = (m₁, buf)) :
    Respects (writeOut alloc m [] outPtr outLen) (Placed m₁ buf [] outPtr outLen) := by
  have hwrite : writeOut alloc m [] outPtr outLen =
      andThen (writeU32 m₁ outPtr buf) fun m => writeU32 m outLen (UInt32.ofNat 0) := by
    have halloc : guestAlloc alloc m (UInt32.ofNat ([] : Bytes).length) = (m₁, buf) := h
    rw [writeOut, halloc]
    simp
  rw [hwrite]
  refine (pointers_respects m₁ buf _ outPtr outLen).congr ⟨fun hfits => ?_, fun hfits => ⟨hfits.pointer, hfits.length⟩⟩
  exact ⟨fun hne => absurd rfl hne, fun hne => absurd rfl hne, hfits.1, hfits.2⟩

theorem writeOut_unallocated (h : guestAlloc alloc m (UInt32.ofNat data.length) = (m₁, 0)) (hne : data ≠ []) :
    writeOut alloc m data outPtr outLen = .value (false, m₁) := by
  have hdata : data.isEmpty = false := List.isEmpty_eq_false_iff.2 hne
  rw [writeOut, h]
  simp [hdata]

theorem writeOut_allocated (h : guestAlloc alloc m (UInt32.ofNat data.length) = (m₁, buf)) (hne : data ≠ []) (hbuf : buf ≠ 0) :
    writeOut alloc m data outPtr outLen = andThen (writeBytes m₁ buf data) fun m =>
      andThen (writeU32 m outPtr buf) fun m => writeU32 m outLen (UInt32.ofNat data.length) := by
  have hdata : data.isEmpty = false := List.isEmpty_eq_false_iff.2 hne
  rw [writeOut, h]
  simp [hdata, hbuf]

theorem writeOut_respects_iff (h : guestAlloc alloc m (UInt32.ofNat data.length) = (m₁, buf)) :
    Respects (writeOut alloc m data outPtr outLen) (Placed m₁ buf data outPtr outLen) ↔ ¬ (buf ≠ 0 ∧ Overruns m₁ buf data) := by
  by_cases hne : data = []
  · subst hne
    exact iff_of_true (writeOut_empty h) fun hover => not_overruns_of_lt (by decide) hover.2
  by_cases hbuf : buf = 0
  · subst hbuf
    rw [writeOut_unallocated h hne]
    exact iff_of_true (respects_false (fun hfits => hfits.allocated hne rfl) m₁) fun hover => hover.1 rfl
  rw [writeOut_allocated h hne hbuf]
  by_cases hover : Overruns m₁ buf data
  · rw [writeBytes_of_overruns hover, andThen_nowhere]
    exact iff_of_false (not_respects_nowhere _) (not_not_intro ⟨hbuf, hover⟩)
  refine iff_of_true ?_ fun h => hover h.2
  obtain ⟨ok, m₂, hwrite, hok⟩ := writeBytes_respects_iff.2 hover
  rw [hwrite]
  by_cases hfits : buf.toNat + data.length ≤ m₁.length
  · rw [writeBytes_of_fits hfits] at hwrite
    cases hwrite
    have hlength := length_overwrite hfits
    rw [andThen_true]
    refine (pointers_respects _ buf _ outPtr outLen).congr ?_
    rw [hlength]
    exact ⟨fun hp => ⟨fun _ => hbuf, fun _ => hfits, hp.1, hp.2⟩, fun hp => ⟨hp.pointer, hp.length⟩⟩
  · have hfalse : ok = false := Bool.eq_false_iff.2 fun htrue => hfits (hok.1 htrue)
    subst hfalse
    rw [andThen_false]
    exact respects_false (fun hp => hfits (hp.data hne)) m₂

/-- **The writes stay within the memory** exactly where the narrowed check has not let a copy through that does not fit: for
`WriteBytes` at any pointer, for `WriteOut` at the one that the allocator returns. -/
theorem guestWrites_iff (alloc : Allocator) (m : Memory) (ptr : UInt32) (data : Bytes) (outPtr outLen : UInt32) :
    (Respects (writeBytes m ptr data) (ptr.toNat + data.length ≤ m.length) ↔ ¬ Overruns m ptr data) ∧
    (Respects (writeOut alloc m data outPtr outLen)
        (Placed (guestAlloc alloc m (UInt32.ofNat data.length)).1 (guestAlloc alloc m (UInt32.ofNat data.length)).2 data outPtr outLen) ↔
      ¬ ((guestAlloc alloc m (UInt32.ofNat data.length)).2 ≠ 0 ∧
        Overruns (guestAlloc alloc m (UInt32.ofNat data.length)).1 (guestAlloc alloc m (UInt32.ofNat data.length)).2 data)) :=
  ⟨writeBytes_respects_iff, writeOut_respects_iff rfl⟩

/-- A string of 4 GiB is checked as an empty one: in a memory of one page it is copied behind the end. -/
theorem fourGiB_overrun : ¬ Respects (writeOut (fun m _ => (m, some 8)) (List.replicate 65536 0) (List.replicate (2 ^ 32) 0) 0 4)
    (Placed (List.replicate 65536 0) 8 (List.replicate (2 ^ 32) 0) 0 4) := by
  have hover : ∀ m data : Bytes, m.length = 65536 → data.length = 2 ^ 32 → Overruns m 8 data := by
    intro m data hm hdata
    rw [Overruns, hm, hdata]
    decide
  have hlarge : ∀ m data : Bytes, m.length = 65536 → data.length = 2 ^ 32 →
      ¬ Respects (writeOut (fun m _ => (m, some 8)) m data 0 4) (Placed m 8 data 0 4) := by
    intro m data hm hdata hrespects
    exact (writeOut_respects_iff rfl).1 hrespects ⟨show (8 : UInt32) ≠ 0 by decide, hover m data hm hdata⟩
  exact hlarge _ _ List.length_replicate List.length_replicate

/-! ## What is written and read -/

/-- `ReadBytes` does not leave the memory. -/
theorem readBytes_eq (m : Memory) (ptr len : UInt32) :
    readBytes m ptr len = .value (if ptr.toNat + len.toNat ≤ m.length then some (slice m ptr.toNat len.toNat) else none) := by
  by_cases h : ptr.toNat + len.toNat ≤ m.length
  · rw [readBytes, inBounds_iff.2 h, if_pos h, copyFrom, if_pos h]
    rfl
  · have hout : inBounds m ptr len = false := Bool.eq_false_iff.2 fun hin => h (inBounds_iff.1 hin)
    rw [readBytes, hout, if_neg h]
    rfl

/-- `ReadCString` does not: the terminator that is found is one that `std::string` finds. -/
theorem readCString_ne_nowhere (m : Memory) (ptr : UInt32) (cap : Nat) : ∃ text, readCString m ptr cap = .value text := by
  by_cases hend : m.length ≤ ptr.toNat
  · exact ⟨none, if_pos hend⟩
  rw [readCString, if_neg hend]
  dsimp only
  by_cases hfound : (slice m ptr.toNat (min (m.length - ptr.toNat) cap)).contains 0 = true
  · have hthere : (m.drop ptr.toNat).contains 0 = true := by
      rw [List.contains_iff_mem] at hfound ⊢
      exact List.mem_of_mem_take hfound
    rw [if_pos hfound, copyUntil, if_pos hthere]
    exact ⟨_, rfl⟩
  · rw [if_neg hfound]
    exact ⟨none, rfl⟩

/-- The copies of a call that returns true. -/
theorem writeOut_true {m' : Memory} (h : guestAlloc alloc m (UInt32.ofNat data.length) = (m₁, buf)) (hne : data ≠ [])
    (hout : writeOut alloc m data outPtr outLen = .value (true, m')) :
    Placed m₁ buf data outPtr outLen ∧
      m' = overwrite (overwrite (overwrite m₁ buf.toNat data) outPtr.toNat (putLE 4 buf.toNat)) outLen.toNat
        (putLE 4 (UInt32.ofNat data.length).toNat) := by
  have hplaced : Placed m₁ buf data outPtr outLen := by
    have hrespects : Respects (writeOut alloc m data outPtr outLen) (Placed m₁ buf data outPtr outLen) := by
      refine (writeOut_respects_iff h).2 fun hover => ?_
      rw [writeOut_allocated h hne hover.1, writeBytes_of_overruns hover.2, andThen_nowhere] at hout
      cases hout
    obtain ⟨ok, m₂, hcall, hok⟩ := hrespects
    rw [hout] at hcall
    cases hcall
    exact hok.1 rfl
  have hlength := length_overwrite (hplaced.data hne)
  have hlength' : (overwrite (overwrite m₁ buf.toNat data) outPtr.toNat (putLE 4 buf.toNat)).length = m₁.length := by
    rw [length_overwrite (by rw [length_putLE, hlength]; exact hplaced.pointer), hlength]
  rw [writeOut_allocated h hne (hplaced.allocated hne), writeBytes_of_fits (hplaced.data hne), andThen_true,
    writeU32_of_fits (by rw [hlength]; exact hplaced.pointer), andThen_true,
    writeU32_of_fits (by rw [hlength']; exact hplaced.length)] at hout
  cases hout
  exact ⟨hplaced, rfl⟩

/-- What `WriteOut` leaves in the memory, where the three places do not overlap. -/
theorem writeOut_delivers {m' : Memory} (h : guestAlloc alloc m (UInt32.ofNat data.length) = (m₁, buf)) (hne : data ≠ [])
    (hout : writeOut alloc m data outPtr outLen = .value (true, m'))
    (hptr : buf.toNat + data.length ≤ outPtr.toNat ∨ outPtr.toNat + 4 ≤ buf.toNat)
    (hlen : buf.toNat + data.length ≤ outLen.toNat ∨ outLen.toNat + 4 ≤ buf.toNat)
    (hboth : outPtr.toNat + 4 ≤ outLen.toNat ∨ outLen.toNat + 4 ≤ outPtr.toNat) :
    slice m' buf.toNat data.length = data ∧ slice m' outPtr.toNat 4 = putLE 4 buf.toNat ∧
      slice m' outLen.toNat 4 = putLE 4 (UInt32.ofNat data.length).toNat := by
  obtain ⟨hplaced, rfl⟩ := writeOut_true h hne hout
  have hlength := length_overwrite (hplaced.data hne)
  have hin : outPtr.toNat + (putLE 4 buf.toNat).length ≤ (overwrite m₁ buf.toNat data).length := by
    rw [length_putLE, hlength]
    exact hplaced.pointer
  have hin' : outLen.toNat + (putLE 4 (UInt32.ofNat data.length).toNat).length ≤
      (overwrite (overwrite m₁ buf.toNat data) outPtr.toNat (putLE 4 buf.toNat)).length := by
    rw [length_putLE, length_overwrite hin, hlength]
    exact hplaced.length
  have hfour : ∀ (m : Memory) (i v : Nat), i ≤ m.length → slice (overwrite m i (putLE 4 v)) i 4 = putLE 4 v := by
    intro m i v hi
    have hslice := @slice_overwrite _ m (putLE 4 v) i hi
    rwa [length_putLE] at hslice
  refine ⟨?_, ?_, hfour _ _ _ (by omega)⟩
  · rw [slice_overwrite_of_disjoint hin' (by rw [length_putLE]; exact hlen),
      slice_overwrite_of_disjoint hin (by rw [length_putLE]; exact hptr), slice_overwrite (by have := hplaced.data hne; omega)]
  · rw [slice_overwrite_of_disjoint hin' (by rw [length_putLE]; exact hboth), hfour _ _ _ (by omega)]

end

end OriginDB.Wasm
