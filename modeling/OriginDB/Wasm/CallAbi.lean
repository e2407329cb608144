import OriginDB.Wasm.GuestMemory
import OriginDB.Websocket.Lifecycle
/-!
# How a call gets into a module (`src/wasm/wasm_engine.cpp:291-318, 542-613`)

`Execute` prints the arguments as a JSON array, writes the name and the text into buffers of the module's own allocator, and
calls `origindb_invoke` with two pointers and two lengths. Unlike the host functions, `WriteGuestBuffer` compares the whole
length, so it never copies past the end of the memory. The two buffers arrive as they were written when the second allocation
leaves the first one alone (`Allocates`, `callInvoke_delivers`).

Of `WasmValue` the alternatives that a caller can send are modelled; no path passes an `int32_t` or a `float`.
-/
namespace OriginDB.Wasm

open JsonDoc ByteCodec LinearMemory

/-! ## Arguments -/

/-- An argument in the array of `SerializeArgs` (`:597`). -/
def argJson : WasmValue → Json
  | .null => .null
  | .bool b => .bool b
  | .int64 v => .int v.toInt
  | .double bits => .float bits
  | .string s => .string s
  | .bytes b => .object [(str "$bytes", .string (base64Encode b))]

/-- `SerializeArgs`; `none` is the exception of `dump`. -/
def serializeArgs (J : JsonLib) (args : List WasmValue) : Option Bytes := J.dump (.array (args.map argJson))

/-! ## Buffers -/

/-- `WriteGuestBuffer` (`:544`): the memory it leaves, and where the buffer is. -/
def writeGuestBuffer (alloc : Allocator) (m : Memory) (data : Bytes) : Memory × Option UInt32 :=
  let (m, result) := alloc m (UInt32.ofNat data.length)
  match result with
  | none => (m, none)
  | some ptr =>
    if ptr = 0 ∧ data ≠ [] then (m, none)
    else if m.length < ptr.toNat + data.length then (m, none)
    else (overwrite m ptr.toNat data, some ptr)

/-- The exported `origindb_invoke`: what it does, given the memory as it is then. -/
abbrev Invoke := Memory → UInt32 → Int32 → UInt32 → Int32 → Guest

/-- `CallInvoke` (`:565`). -/
def callInvoke (alloc : Allocator) (invoke : Invoke) (m : Memory) (name argsJson : Bytes) : Guest :=
  match writeGuestBuffer alloc m name with
  | (_, none) => .traps (str "failed to write call arguments into guest memory")
  | (m, some namePtr) =>
    match writeGuestBuffer alloc m argsJson with
    | (_, none) => .traps (str "failed to write call arguments into guest memory")
    | (m, some argsPtr) => invoke m namePtr (Int32.ofNat name.length) argsPtr (Int32.ofNat argsJson.length)

/-- What a module exports, and its memory. -/
structure Instance where
  alloc : Allocator
  invoke : Invoke
  memory : Memory

/-- `Execute` (`:291`) with the arguments of the call: they are printed once the module is there to be called. -/
def executeArgs (env : Env) (maxLag : Nat) (io : Io) (caps : ModuleCapabilities) (moduleName reducer : Bytes) (entry : Entry)
    (inst : Instance) (args : List WasmValue) (s : Store) : Called WasmResult :=
  match serializeArgs env.toJsonLib args with
  | some argsJson =>
    execute env maxLag io caps moduleName reducer entry (callInvoke inst.alloc inst.invoke inst.memory reducer argsJson) s
  | none => if Lifecycle.reaches entry then .threw s else execute env maxLag io caps moduleName reducer entry (.returns 0) s

/-! ## What arrives -/

/-- `origindb_alloc` gives two blocks of the memory that do not overlap, and the second call leaves the first block as it is. -/
def Allocates (alloc : Allocator) (m : Memory) (name argsJson : Bytes) : Prop :=
  ∃ (m₁ m₂ : Memory) (namePtr argsPtr : UInt32),
    alloc m (UInt32.ofNat name.length) = (m₁, some namePtr) ∧ namePtr ≠ 0 ∧ namePtr.toNat + name.length ≤ m₁.length ∧
    alloc (overwrite m₁ namePtr.toNat name) (UInt32.ofNat argsJson.length) = (m₂, some argsPtr) ∧ argsPtr ≠ 0 ∧
    argsPtr.toNat + argsJson.length ≤ m₂.length ∧ slice m₂ namePtr.toNat name.length = name ∧
    (namePtr.toNat + name.length ≤ argsPtr.toNat ∨ argsPtr.toNat + argsJson.length ≤ namePtr.toNat)

theorem writeGuestBuffer_of_alloc {alloc : Allocator} {m m₁ : Memory} {data : Bytes} {ptr : UInt32}
    (halloc : alloc m (UInt32.ofNat data.length) = (m₁, some ptr)) (hptr : ptr ≠ 0) (hfits : ptr.toNat + data.length ≤ m₁.length) :
    writeGuestBuffer alloc m data = (overwrite m₁ ptr.toNat data, some ptr) := by
  rw [writeGuestBuffer, halloc]
  dsimp only
  rw [if_neg fun h => hptr h.1, if_neg (Nat.not_lt.2 hfits)]

/-- **The name and the arguments arrive** as they were written. -/
theorem callInvoke_delivers {alloc : Allocator} (invoke : Invoke) {m : Memory} {name argsJson : Bytes}
    (h : Allocates alloc m name argsJson) : ∃ (m' : Memory) (namePtr argsPtr : UInt32),
      callInvoke alloc invoke m name argsJson =
        invoke m' namePtr (Int32.ofNat name.length) argsPtr (Int32.ofNat argsJson.length) ∧
      slice m' namePtr.toNat name.length = name ∧ slice m' argsPtr.toNat argsJson.length = argsJson := by
  obtain ⟨m₁, m₂, namePtr, argsPtr, hname, hnamePtr, hnameFits, hargs, hargsPtr, hargsFits, hkept, hapart⟩ := h
  refine ⟨overwrite m₂ argsPtr.toNat argsJson, namePtr, argsPtr, ?_, ?_, slice_overwrite (by omega)⟩
  · rw [callInvoke, writeGuestBuffer_of_alloc hname hnamePtr hnameFits]
    dsimp only
    rw [writeGuestBuffer_of_alloc hargs hargsPtr hargsFits]
  · rw [slice_overwrite_of_disjoint hargsFits hapart, hkept]

/-! ## An allocator -/

/-- It gives what comes behind the memory, and makes it larger. -/
def bump : Allocator := fun m size => (m ++ List.replicate size.toNat 0, some (UInt32.ofNat m.length))

theorem allocates_bump {m : Memory} {name argsJson : Bytes} (hm : m ≠ []) (hsize : m.length + name.length + argsJson.length < 2 ^ 32) :
    Allocates bump m name argsJson := by
  have htoNat : ∀ n, n < 2 ^ 32 → (UInt32.ofNat n).toNat = n := fun n hn => UInt32.toNat_ofNat_of_lt' hn
  have hpos := List.length_pos_iff.2 hm
  have hgrown : (m ++ List.replicate name.length 0).length = m.length + name.length := by simp
  have hwritten : (overwrite (m ++ List.replicate name.length 0) m.length name).length = m.length + name.length := by
    rw [length_overwrite (by omega), hgrown]
  have hptr : ∀ n, 0 < n → n < 2 ^ 32 → UInt32.ofNat n ≠ 0 := by
    intro n hn hlt hzero
    have hn' := htoNat n hlt
    rw [hzero] at hn'
    exact absurd hn' (by simpa using Nat.ne_of_lt hn)
  refine ⟨_, _, UInt32.ofNat m.length, UInt32.ofNat (m.length + name.length), by rw [bump, htoNat _ (by omega)], hptr _ hpos (by omega), ?_,
    by rw [bump, htoNat _ (by omega : m.length < 2 ^ 32), hwritten], hptr _ (by omega) (by omega), ?_, ?_, .inl ?_⟩
  · rw [htoNat _ (by omega), hgrown]
  · rw [htoNat _ (by omega), htoNat _ (by omega), List.length_append, hwritten, List.length_replicate]
  · rw [htoNat _ (by omega), htoNat _ (by omega), slice, List.drop_append_of_le_length (by omega), List.take_append_of_le_length
      (by rw [List.length_drop, hwritten]; omega)]
    exact slice_overwrite (by omega)
  · rw [htoNat _ (by omega), htoNat _ (by omega)]

end OriginDB.Wasm
