import OriginDB.Lib.Json
import OriginDB.Wasm.GuestMemory
/-!
# What a module says about itself (`src/wasm/wasm_engine.cpp:615-670`)

`origindb_describe` returns a pointer and a length in one number. What is there is taken as the metadata of the module when it
lies within the memory and is the text of an object; otherwise the module is loaded all the same, without metadata. A reducer
whose `name` is not a string is the one thing that ends the load, by an exception.

The names of imports and exports are left out.
-/
namespace OriginDB.Wasm

open JsonDoc ByteCodec LinearMemory

structure ReducerDef where
  name : Bytes
  paramTypes : List Bytes := []
  isInit : Bool := false
  isClientConnected : Bool := false
  isClientDisconnected : Bool := false
deriving DecidableEq

structure ModuleMetadata where
  version : Bytes := []
  reducers : List ReducerDef := []

/-- The flags are those of the name. -/
def ReducerDef.named (name : Bytes) (paramTypes : List Bytes) : ReducerDef where
  name := name
  paramTypes := paramTypes
  isInit := name = str "__init"
  isClientConnected := name = str "__client_connected"
  isClientDisconnected := name = str "__client_disconnected"

def paramType : Json → Bytes
  | .string s => s
  | _ => str "any"

def paramTypes (r : Json) : List Bytes :=
  match r.constMember (str "params") with
  | some (.array l) => l.map paramType
  | _ => []

/-- One round of the loop (`:651-668`): what it adds; `none` is an exception. -/
def reducerDef : Json → Option (Option ReducerDef)
  | .string s => some (some (.named s []))
  | .object m =>
    match (Json.object m).constMember (str "name") with
    | none => some none
    | some name => name.asString.map fun name => some (.named name (paramTypes (.object m)))
  | _ => some none

/-- The blob that `origindb_describe` returns, if it is within the memory. -/
def describedBlob (m : Memory) (result : UInt64) : Option Bytes :=
  let ptr := (result >>> 32).toUInt32
  let len := result.toUInt32
  if m.length < ptr.toNat + len.toNat then none else some (slice m ptr.toNat len.toNat)

/-- The members of the metadata that are read (`:646-668`). -/
def readMetadata (described : Json) (metadata : ModuleMetadata) : Option ModuleMetadata :=
  let version := if metadata.version = [] then
      match described.constMember (str "version") with
      | some (.string v) => v
      | _ => []
    else metadata.version
  match described.constMember (str "reducers") with
  | some (.array l) =>
    (l.mapM reducerDef).map fun defs => { version := version, reducers := metadata.reducers ++ defs.reduceOption }
  | _ => some { metadata with version := version }

/-- `ExtractMetadata` (`:615`), where `result` is that of the call of `origindb_describe`, if there is the function and it returns. -/
def extractMetadata (J : JsonLib) (m : Memory) (result : Option UInt64) (metadata : ModuleMetadata) : Option ModuleMetadata :=
  match result.bind fun result => (describedBlob m result).bind J.parse with
  | some (.object members) => readMetadata (.object members) metadata
  | _ => some metadata

end OriginDB.Wasm
