import OriginDB.Sdk.Registry
import OriginDB.Sdk.WriteBack
import OriginDB.Wasm.CallAbi
/-!
# A call from the server to a handler (`wasm_engine.cpp:291-357, 542-613`, `index.ts:825-899`)

The arguments of a call are printed by the host, copied into the memory of the module, decoded, parsed and given to the handler
that is registered under the name. Each of them arrives as the value that the SDK's accessor for its kind gives (`Arrives`):
only an integer from 2⁵³ on is rounded, and a double that is not finite is `null`.

What the guest decodes is UTF-8; decoding of other bytes is not modelled.
-/
namespace OriginDB.Sdk

open JsonDoc JsonGrammar ByteCodec JsonParser Wasm LinearMemory

/-- The name and the arguments of `origindb_invoke` (`:870-871`), as far as they are UTF-8. -/
def textAt (m : Memory) (ptr : UInt32) (len : Int32) (dflt : Units) : Units :=
  if 0 < len then Utf16.decode (slice m ptr.toNat len.toInt.toNat) else dflt

/-- The export `origindb_invoke` of a module that has registered its handlers. -/
def invokeExport (rt : JsonValue.Runtime) (reg : Registry) : Invoke := fun m namePtr nameLen argsPtr argsLen =>
  reg.invoke rt (textAt m namePtr nameLen []) (textAt m argsPtr argsLen (Utf16.units "[]".toList))

/-- What a handler is given for an argument. -/
def guestArg (a : WasmValue) : JsonValue := guestValue (argJson a).reparsed

/-- The document of the arguments, as a parser reads it. -/
def argsDoc (args : List WasmValue) : Json := (Json.array (args.map argJson)).reparsed

/-- The accessor for its kind gives the argument. -/
def Arrives : WasmValue → JsonValue → Prop
  | .null, v => v.isNull = true
  | .bool b, v => v.asBool = b
  | .int64 n, v => v.asNumber = Numbers.ofInt n.toInt ∧ (n.toInt.natAbs < 2 ^ 53 → v.asInt = some n.toInt)
  | .double bits, v => if Json.nonFinite bits then v.isNull = true else v.asNumber = bits
  | .string s, v => Utf16.encode v.asString = s
  | .bytes b, v => b.length < 2 ^ 29 → bytesArg v = some (some b)

section
variable {J : JsonLib} {rt : JsonValue.Runtime} {reg : Registry} {a : WasmValue} {args : List WasmValue} {m : Memory} {text name : Bytes}

/-! ## Arguments -/

theorem guestValue_argsDoc (args : List WasmValue) : guestValue (argsDoc args) = .array (args.map guestArg) := by
  have hall : ∀ l : List WasmValue, guestElements (Json.reparsedList (l.map argJson)) = l.map guestArg := by
    intro l
    induction l with
    | nil => rfl
    | cons a l ih =>
      rw [List.map_cons, Json.reparsedList, guestElements, ih]
      rfl
  rw [argsDoc, Json.reparsed, guestValue, hall]

/-- Every string that is printed is UTF-8. -/
theorem utf8_of_serializeArgs (hJ : J.Utf8Only) (h : serializeArgs J args = some text) : ∀ a ∈ args, (argJson a).utf8 = true := by
  have hprinted : (serializeArgs J args).isSome = true := by rw [h]; rfl
  rw [serializeArgs, hJ.dump_isSome, Json.utf8_array] at hprinted
  exact fun a ha => hprinted _ (List.mem_map_of_mem ha)

theorem bytesKey_eq : Utf16.decode (str "$bytes") = Utf16.units "$bytes".toList := by decide

theorem bytesArg_guestArg {b : Bytes} (h : b.length < 2 ^ 29) : bytesArg (guestArg (.bytes b)) = some (some b) := by
  have hguest : guestArg (.bytes b) = .object [(Utf16.units "$bytes".toList, .string (base64Encode b))] := by
    rw [← bytesKey_eq, ← decode_base64Encode, Wasm.Host.base64Encode_eq]
    rfl
  have hdecode : base64Decode (base64Encode b) = some b := by
    rw [base64Encode_eq_text]
    exact base64Decode_text h
  rw [hguest, bytesArg]
  simp only [JsonValue.has, JsonValue.get, List.lookup_cons_self, Option.isSome_some, if_true, Option.getD_some, JsonValue.asString,
    hdecode, Option.map_some]

theorem arrives_guestArg (hutf : (argJson a).utf8 = true) : Arrives a (guestArg a) := by
  cases a with
  | null => rfl
  | bool b => rfl
  | int64 n =>
    refine ⟨rfl, fun hsmall => ?_⟩
    have hnumber : (guestArg (.int64 n)).asNumber = Numbers.ofInt n.toInt := rfl
    have hfinite := Numbers.nonFinite_ofInt (show n.toInt.natAbs < 2 ^ 64 by omega)
    have hlow := n.le_toInt
    have hhigh := n.toInt_lt
    rw [JsonValue.asInt, hnumber, hfinite, Numbers.truncDouble_ofInt hsmall]
    simp only [Bool.false_eq_true, if_false]
    rw [if_pos ⟨hlow, hhigh⟩]
  | double bits =>
    show if Json.nonFinite bits then _ else _
    have hguest : guestArg (.double bits) = guestValue (if Json.nonFinite bits then .null else .float bits) := rfl
    rw [hguest]
    split
    · rfl
    · rfl
  | string s => exact Utf16.encode_decode (Json.utf8_string.1 hutf)
  | bytes b => exact fun h => bytesArg_guestArg h

/-! ## The call -/

theorem textAt_eq {ptr : UInt32} {dflt : Units} {data : Bytes} (hdata : slice m ptr.toNat data.length = data)
    (hlen : data.length < 2 ^ 31) (hempty : data = [] → dflt = []) : textAt m ptr (Int32.ofNat data.length) dflt = Utf16.decode data := by
  have htoInt : (Int32.ofNat data.length).toInt = data.length := Int32.toInt_ofNat_of_lt hlen
  rw [textAt]
  by_cases hpos : 0 < data.length
  · have hlt : (0 : Int32) < Int32.ofNat data.length := by
      rw [Int32.lt_iff_toInt_lt, htoInt]
      exact Int.natCast_pos.2 hpos
    rw [if_pos hlt, htoInt, Int.toNat_natCast, hdata]
  · obtain rfl : data = [] := List.eq_nil_of_length_eq_zero (by omega)
    rw [if_neg (by simp), hempty rfl]
    rfl

/-- The handler is given what has been sent. -/
theorem callInvoke_eq_handle {alloc : Allocator} (hcompact : Compact (argsDoc args) (Utf16.decode text)) (hne : text ≠ [])
    (halloc : Allocates alloc m name text) (hname : name.length < 2 ^ 31) (htext : text.length < 2 ^ 31) :
    callInvoke alloc (invokeExport rt reg) m name text = reg.handle rt (Utf16.decode name) (args.map guestArg) := by
  obtain ⟨m', namePtr, argsPtr, hcall, hnameThere, hargsThere⟩ := callInvoke_delivers (invokeExport rt reg) halloc
  have hargs : Registry.parsedArgs (Utf16.decode text) = args.map guestArg := by
    rw [Registry.parsedArgs, tryParse_of_compact hcompact, guestValue_argsDoc]
  rw [hcall, invokeExport, textAt_eq hnameThere hname fun _ => rfl, textAt_eq hargsThere htext fun h => absurd h hne,
    Registry.invoke, hargs]

end

section
variable {env : Env} {maxLag : Nat} {io : Io} {caps : ModuleCapabilities} {moduleName reducer : Bytes} {entry : Wasm.Entry} {s : Store}

/-- A call that finds no handler changes nothing. -/
theorem execute_noHandler (hreaches : Lifecycle.reaches entry = true) :
    execute env maxLag io caps moduleName reducer entry (.returns errNoHandler) s = .returned
      (if isReservedName reducer then { success := true } else { success := false, error := str "unknown reducer: " ++ reducer }) s := by
  rw [Lifecycle.reaches, Bool.and_eq_true, Bool.not_eq_true'] at hreaches
  obtain ⟨hrunning, hinstantiated⟩ := hreaches
  cases hentry : entry.instantiation with
  | error e =>
    rw [hentry] at hinstantiated
    cases hinstantiated
  | ok u =>
    rw [execute, hrunning, hentry]
    simp only [Bool.false_eq_true, if_false, Guest.run, if_true]
    split <;> rfl

end

/-- **What the server sends to a module.** A call runs the handler that has been registered last under its name, a reducer before
a filter, on the arguments one by one; a name without a handler is answered without anything being done. -/
theorem call_reaches_handler (env : Env) (hJ : env.toJsonLib.Utf8Only) (rt : JsonValue.Runtime) (registrations : List Registration)
    (maxLag : Nat) (io : Io) (caps : ModuleCapabilities) (moduleName reducer : Bytes) (entry : Wasm.Entry) (alloc : Allocator) (m : Memory)
    (args : List WasmValue) (s : Store) (text : Bytes) (hdump : serializeArgs env.toJsonLib args = some text)
    (hcompact : Compact (argsDoc args) (Utf16.decode text)) (halloc : Allocates alloc m reducer text)
    (hname : reducer.length < 2 ^ 31) (htext : text.length < 2 ^ 31) :
    (∀ a ∈ args, Arrives a (guestArg a)) ∧
    (∀ handler, Registry.lastReducer (Utf16.decode reducer) registrations = some handler →
      executeArgs env maxLag io caps moduleName reducer entry ⟨alloc, invokeExport rt (.ofRegistrations registrations), m⟩ args s =
        execute env maxLag io caps moduleName reducer entry ((handler.fn (args.map guestArg)).andThen (Registry.reply rt)) s) ∧
    (Registry.lastReducer (Utf16.decode reducer) registrations = none →
      (∀ fn, Registry.lastFilter (Utf16.decode reducer) registrations = some fn →
        executeArgs env maxLag io caps moduleName reducer entry ⟨alloc, invokeExport rt (.ofRegistrations registrations), m⟩ args s =
          execute env maxLag io caps moduleName reducer entry
            ((fn (Registry.unwrapEvent (args.map guestArg))).andThen Registry.verdict) s) ∧
      (Registry.lastFilter (Utf16.decode reducer) registrations = none → Lifecycle.reaches entry = true →
        executeArgs env maxLag io caps moduleName reducer entry ⟨alloc, invokeExport rt (.ofRegistrations registrations), m⟩ args s =
          .returned (if isReservedName reducer then { success := true }
            else { success := false, error := str "unknown reducer: " ++ reducer }) s)) := by
  have hne : text ≠ [] := by
    rintro rfl
    exact env.toJsonLib.dump_ne_nil hdump
  have hcall : executeArgs env maxLag io caps moduleName reducer entry ⟨alloc, invokeExport rt (.ofRegistrations registrations), m⟩ args s =
      execute env maxLag io caps moduleName reducer entry
        ((Registry.ofRegistrations registrations).handle rt (Utf16.decode reducer) (args.map guestArg)) s := by
    rw [executeArgs, hdump]
    dsimp only
    rw [callInvoke_eq_handle hcompact hne halloc hname htext]
  obtain ⟨hreducer, hfilter, hnone⟩ :=
    Registry.handle_ofRegistrations rt registrations (Utf16.decode reducer) (args.map guestArg)
  refine ⟨fun a ha => arrives_guestArg (utf8_of_serializeArgs hJ hdump a ha), fun handler hhandler => ?_, fun hno => ⟨fun fn hfn => ?_, ?_⟩⟩
  · rw [hcall, hreducer handler hhandler]
  · rw [hcall, hfilter hno fn hfn]
  · intro hnoFilter hreaches
    rw [hcall, hnone hno hnoFilter, execute_noHandler hreaches]

/-! ## A call -/

/-- A string, an integer and bytes. -/
def callArgs : List WasmValue := [.string (str "x"), .int64 5, .bytes [0xff]]

def callText : Bytes := str "[\"x\",5,\x7b\"$bytes\":\"/w==\"\x7d]"

def callDocs : List (Json × Bytes) := [(.array (callArgs.map argJson), callText)]

/-- A reducer that gives back its first argument. -/
def echo : Registration := .reducer (Utf16.units "echo".toList) (fun args => pure args.head?) []

theorem callArgs_evaluated :
    (∀ d ∈ callDocs, d.2 ≠ [] ∧ d.2.head? ≠ some 35 ∧ parseTable callDocs d.2 = some d.1.reparsed) ∧
    ((Json.array (callArgs.map argJson)).utf8 = true ∧ callDocs.lookup (.array (callArgs.map argJson)) = some callText) ∧
    argsDoc callArgs = .array [.string (str "x"), .int 5, .object [(str "$bytes", .string (str "/w=="))]] ∧
    Utf16.decode (str "echo") = Utf16.units "echo".toList ∧
    Utf16.encode ((guestArg (.string (str "x"))).toString half) = str "\"x\"" ∧
    Utf16.decode callText = [0x5b] ++ (JsonValue.quote (Utf16.decode (str "x")) ++ [0x2c] ++ (JsonValue.i64ToString 5 ++ [0x2c] ++
      ([0x7b] ++ (JsonValue.quote (Utf16.decode (str "$bytes")) ++ [0x3a] ++ JsonValue.quote (Utf16.decode (str "/w=="))) ++ [0x7d]))) ++
      [0x5d] := by
  decide

noncomputable def callEnv : Env := { toJsonLib := .extended callDocs callArgs_evaluated.1, order := .sorted }

theorem compact_callArgs : Compact (argsDoc callArgs) (Utf16.decode callText) := by
  obtain ⟨-, -, hdoc, -, -, htext⟩ := callArgs_evaluated
  have hint : Compact (.int 5) (JsonValue.i64ToString 5) := by
    rw [Compact]
    exact ⟨by decide, rfl⟩
  have hbytes : Compact (.object [(str "$bytes", .string (str "/w=="))])
      ([0x7b] ++ (JsonValue.quote (Utf16.decode (str "$bytes")) ++ [0x3a] ++ JsonValue.quote (Utf16.decode (str "/w=="))) ++ [0x7d]) := by
    rw [Compact]
    refine ⟨by simp, _, ?_, rfl⟩
    rw [CompactMembers]
    exact ⟨_, _, compact_name "$bytes", compact_string (utf8_str _), rfl⟩
  have hlast : CompactElements [.object [(str "$bytes", .string (str "/w=="))]]
      ([0x7b] ++ (JsonValue.quote (Utf16.decode (str "$bytes")) ++ [0x3a] ++ JsonValue.quote (Utf16.decode (str "/w=="))) ++ [0x7d]) := by
    rw [CompactElements]
    exact hbytes
  rw [hdoc, Compact, htext]
  exact ⟨_, compactElements_cons.2 ⟨_, _, compact_string (utf8_str _), compactElements_cons.2 ⟨_, _, hint, hlast, rfl⟩, rfl⟩, rfl⟩

theorem call_reaches_handler_echo : ∃ s',
    executeArgs callEnv 100000 {} {} (str "m") (str "echo") {} ⟨bump, invokeExport half (.ofRegistrations [echo]), List.replicate 8 0⟩
      callArgs {} = .returned { success := true, value := some (.inl (str "\"x\"")) } s' := by
  obtain ⟨hdocs, ⟨hutf, hdump⟩, -, hname, hreply, -⟩ := callArgs_evaluated
  have hJ : callEnv.toJsonLib.Utf8Only := by
    refine JsonLib.utf8Only_extended hdocs fun d hd => ?_
    rw [List.mem_singleton.1 hd]
    exact utf8_str _
  have htext : serializeArgs callEnv.toJsonLib callArgs = some callText := JsonLib.dump_extended hdocs hutf hdump
  have hsize : 8 + (str "echo").length + callText.length < 2 ^ 31 := by decide
  obtain ⟨-, hreducer, -⟩ := call_reaches_handler callEnv hJ half [echo] 100000 {} {} (str "m") (str "echo") {} bump (List.replicate 8 0)
    callArgs {} callText htext compact_callArgs (allocates_bump (by simp) (by rw [List.length_replicate]; omega)) (by omega) (by omega)
  rw [hname] at hreducer
  have hguest : ((pure (callArgs.map guestArg).head? : Script (Option JsonValue)).andThen (Registry.reply half)) =
      .setResult (str "\"x\"") (.returns 0) := by
    rw [Script.pure_andThen]
    show Script.andThen (setResult ((guestArg (.string (str "x"))).toString half)) _ = _
    simp only [setResult, Script.andThen, hreply]
    rw [if_neg (by decide)]
  have hcall := hreducer { fn := fun args => pure args.head?, params := [] } (by simp [Registry.lastReducer, echo])
  dsimp only at hcall
  rw [hcall, hguest]
  exact ⟨Store.publishAll 100000 0 {} [], by simp [execute, Guest.run, commitHostCall, errNoHandler]⟩

end OriginDB.Sdk
