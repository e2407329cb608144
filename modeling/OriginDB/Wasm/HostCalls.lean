import OriginDB.Storage.Store
/-!
# Host functions and the overlay of a reducer call (`src/wasm/host_functions.cpp`)

A reducer call stages its writes in an overlay, table by table and key by key, and reads through it.
`Guest` is what a module does during one call: the host functions it calls, going on from what each of
them answers, until it returns a status or is stopped. A value a module gets from elsewhere (the clock, an
id, the sender, its own memory) is part of what it does, and so is a time limit that stops it.

| here | there |
| --- | --- |
| `rowToJson`, `jsonToRow`       | `RowToJson` (`:675`), `JsonToRow` (`:702`) |
| `hostTableRead`, `…Scan`       | `HostTableRead` (`:145`), `HostTableScan` (`:250`) once their arguments are read from guest memory |
| `hostTableWrite`, `…Delete`    | `HostTableWrite` (`:195`), `HostTableDelete` (`:229`) |
| `Guest.run`                    | `origindb_invoke`, as the engine sees it |

Committed rows are read as the text the serialiser makes of them; the table's memo of these texts is
dropped with the row it belongs to. `none` is an exception of `dump`, on text that is not UTF-8.
-/
namespace OriginDB

open JsonDoc ByteCodec

namespace Wasm

/-! ## Rows as a module sees them -/

def base64Alphabet : Bytes := str "ABCDEFGHIJKLMNOPQRSTUVWXYZabcdefghijklmnopqrstuvwxyz0123456789+/"

def base64Char (n : Nat) : UInt8 := base64Alphabet[n % 64]?.getD 0

/-- `Base64Encode` (host_functions.cpp:624). -/
def base64Encode : Bytes → Bytes
  | [] => []
  | [a] => [base64Char (a.toNat / 4), base64Char (a.toNat * 16), 61, 61]
  | [a, b] => [base64Char (a.toNat / 4), base64Char (a.toNat * 16 + b.toNat / 16), base64Char (b.toNat * 4), 61]
  | a :: b :: c :: rest =>
    base64Char (a.toNat / 4) :: base64Char (a.toNat * 16 + b.toNat / 16) ::
      base64Char (b.toNat * 4 + c.toNat / 64) :: base64Char c.toNat :: base64Encode rest

def base64Value (c : UInt8) : Option Nat := base64Alphabet.idxOf? c

/-- `Base64Decode` (host_functions.cpp:641). A group that ends in `=` ends early, whatever follows it. -/
def base64Decode : Bytes → Option Bytes
  | [] => some []
  | a :: b :: c :: d :: rest => do
    let a ← base64Value a
    let b ← base64Value b
    let first := UInt8.ofNat (a * 4 + b / 16)
    let group ← if c = 61 then some [first] else do
      let c ← base64Value c
      let second := UInt8.ofNat (b * 16 + c / 4)
      if d = 61 then some [first, second] else do
        let d ← base64Value d
        some [first, second, UInt8.ofNat (c * 64 + d)]
    return group ++ (← base64Decode rest)
  | _ => none

/-- `RowToJson` (host_functions.cpp:675) on one value. -/
def valueToJson : Value → Json
  | .null => .null
  | .int32 v => .int v.toInt
  | .int64 v => .int v.toInt
  | .float bits => .float (widen bits)
  | .double bits => .float bits
  | .string s => .string s
  | .bytes b => .object [(str "$bytes", .string (base64Encode b))]
  | .bool b => .bool b
  | .timestamp ns => .int (ns.toInt.tdiv 1000000)

/-- `RowToJson` (host_functions.cpp:675). -/
def rowToJson (row : Row) : Json := .object (row.columns.toList.map fun p => (p.1, valueToJson p.2))

/-- `RowJsonSerializer` (host_functions.cpp:669). -/
def rowText (J : JsonLib) (row : Row) : Option Bytes := J.dump (rowToJson row)

/-- One column of `JsonToRow`: what is neither a scalar nor bytes is kept as its text. -/
def jsonToValue (J : JsonLib) (v : Json) : Option Value :=
  match v with
  | .null => some .null
  | .bool b => some (.bool b)
  | .int v => some (.int64 (Int64.ofInt v))
  | .float bits => some (.double bits)
  | .string s => some (.string s)
  | .object m =>
    match m.lookup (str "$bytes") with
    | some (.string s) => some ((base64Decode s).elim .null .bytes)
    | _ => (J.dump v).map .string
  | _ => (J.dump v).map .string

/-- `JsonToRow` (host_functions.cpp:702). -/
def jsonToRow (J : JsonLib) (key : Bytes) (columns : Json) : Option Row :=
  let members := match columns with
    | .object m => m
    | _ => []
  (members.mapM fun p => (jsonToValue J p.2).map fun v => (p.1, v)).map fun l =>
    { key := key, columns := OrdMap.insertAll ∅ l }

/-- `SchemaFromJson` (host_functions.cpp:532). -/
def schemaFromJson (table : Bytes) (columns : Json) : TableSchema :=
  let members := match columns with
    | .object m => m
    | _ => []
  { name := table, primaryKey := []
    columns := members.map fun p =>
      { name := p.1, nullable := true
        type := match p.2 with
          | .bool _ => .boolean
          | .int _ => .int64
          | .float _ => .double
          | _ => .string } }

/-! ## Host functions -/

/-- `ModuleCapabilities` (wasm_engine.h:62). -/
structure ModuleCapabilities where
  allowedTables : List Bytes := []
  readOnly : Bool := false
  maxMemoryMb : UInt32 := 0
  timeoutMs : UInt32 := 0
deriving DecidableEq

/-- `TableAllowed` (host_functions.cpp:104). -/
def tableAllowed (caps : ModuleCapabilities) (table : Bytes) : Bool := caps.allowedTables = [] || table ∈ caps.allowedTables

/-- Staged writes, by table and key; `none` is a staged delete. -/
abbrev Overlay := StrMap (StrMap (Option Json))

structure StagedEvent where
  topic : Bytes
  key : Bytes
  payload : Bytes
deriving DecidableEq

/-- `HostCallContext` (wasm_runtime_internal.h:45). -/
structure HostCallContext where
  overlay : Overlay := ∅
  events : List StagedEvent := []
  result : Option Bytes := none
  abortMsg : Bytes := []

def errPermission : Int32 := -2

def errInvalidArg : Int32 := -3

def errNoHandler : Int32 := -404

def defaultScanLimit : Int32 := 1000

/-- What is staged for a key. -/
def Overlay.find (o : Overlay) (table key : Bytes) : Option (Option Json) := o[table]?.bind fun writes => writes[key]?

/-- `overlay[table][key] = …`. -/
def Overlay.stage (o : Overlay) (table key : Bytes) (v : Option Json) : Overlay :=
  o.insert table ((o[table]?.getD ∅).insert key v)

section
variable (J : JsonLib) (caps : ModuleCapabilities) (s : Store)

/-- `HostTableRead`: its answer, and the value it writes to guest memory. -/
def hostTableRead (call : HostCallContext) (table key : Bytes) : Option (Int32 × Bytes) :=
  if tableAllowed caps table = false then some (errPermission, [])
  else match call.overlay.find table key with
    | some none => some (0, [])
    | some (some v) => (J.dump v).map fun text => (1, text)
    | none =>
      match s.get table key with
      | none => some (0, [])
      | some row => (rowText J row).map fun text => (1, text)

/-- `HostTableWrite`. -/
def hostTableWrite (call : HostCallContext) (table key value : Bytes) : Int32 × HostCallContext :=
  if caps.readOnly ∨ tableAllowed caps table = false then (errPermission, call)
  else match J.parse value with
    | some (.object m) => (0, { call with overlay := call.overlay.stage table key (some (.object m)) })
    | _ => (errInvalidArg, call)

/-- `HostTableDelete`. -/
def hostTableDelete (call : HostCallContext) (table key : Bytes) : Int32 × HostCallContext :=
  if caps.readOnly ∨ tableAllowed caps table = false then (errPermission, call)
  else (0, { call with overlay := call.overlay.stage table key none })

/-- The end of the range of keys that start with `start`: the last byte that can be is counted up, and what
follows it is dropped. Empty when there is none. -/
def rangeEnd (start : Bytes) : Bytes :=
  match start.reverse.dropWhile fun c => c = 255 with
  | [] => []
  | c :: rest => ((c + 1) :: rest).reverse

/-- The committed rows of a scan, with their texts. -/
def scanCommitted (table start : Bytes) : Option (StrMap Bytes) :=
  match s.getTable table with
  | none => some ∅
  | some t =>
    ((t.scan start (rangeEnd start)).mapM fun p => (rowText J p.2).map fun text => (p.1, text)).map fun l =>
      OrdMap.insertAll ∅ (l.filter fun p => start.isPrefixOf p.1)

/-- The overlay on top of them. -/
def scanOverlay (call : HostCallContext) (table start : Bytes) (rows : StrMap Bytes) : Option (StrMap Bytes) :=
  ((call.overlay[table]?.getD ∅).toList.filter fun p => start.isPrefixOf p.1).foldlM (fun (acc : StrMap Bytes) p =>
    match p.2 with
    | some v => (J.dump v).map fun text => acc.insert p.1 text
    | none => some (acc.erase p.1)) rows

/-- One element of the array a scan answers. -/
def scanItem (key text : Bytes) : Option Bytes :=
  (J.dump (.string key)).map fun k => str "\x7b\"key\":" ++ k ++ str ",\"value\":" ++ text ++ str "\x7d"

/-- `HostTableScan`. -/
def hostTableScan (call : HostCallContext) (table start : Bytes) (limit : Int32) : Option (Int32 × Bytes) :=
  if tableAllowed caps table = false then some (errPermission, [])
  else do
    let limit := if limit ≤ 0 then defaultScanLimit else limit
    let rows ← scanOverlay J call table start (← scanCommitted J s table start)
    let items ← (rows.toList.take limit.toInt.toNat).mapM fun p => scanItem J p.1 p.2
    return (Int32.ofNat items.length, str "[" ++ (items.intersperse (str ",")).flatten ++ str "]")

end

/-! ## A reducer call inside the module -/

inductive Guest where
  | returns (status : Int32)
  /-- A trap, a time limit, memory that cannot be had. -/
  | traps (message : Bytes)
  | abort (message : Bytes)
  | read (table key : Bytes) (next : Int32 → Bytes → Guest)
  | write (table key value : Bytes) (next : Int32 → Guest)
  | delete (table key : Bytes) (next : Int32 → Guest)
  | scan (table start : Bytes) (limit : Int32) (next : Int32 → Bytes → Guest)
  | emit (topic key payload : Bytes) (next : Guest)
  | setResult (payload : Bytes) (next : Guest)

inductive GuestEnd where
  | returned (status : Int32)
  | trapped (message : Bytes)
  /-- An exception in a host function. -/
  | threw
deriving DecidableEq

/-- The call from `origindb_invoke` to its end: what it staged, and how it ended. -/
def Guest.run (J : JsonLib) (caps : ModuleCapabilities) (s : Store) : Guest → HostCallContext → HostCallContext × GuestEnd
  | .returns status, call => (call, .returned status)
  | .traps message, call => (call, .trapped message)
  | .abort message, call => ({ call with abortMsg := message }, .trapped (str "aborted: " ++ message))
  | .read table key next, call =>
    match hostTableRead J caps s call table key with
    | none => (call, .threw)
    | some (code, text) => (next code text).run J caps s call
  | .write table key value next, call =>
    let r := hostTableWrite J caps call table key value
    (next r.1).run J caps s r.2
  | .delete table key next, call =>
    let r := hostTableDelete caps call table key
    (next r.1).run J caps s r.2
  | .scan table start limit next, call =>
    match hostTableScan J caps s call table start limit with
    | none => (call, .threw)
    | some (code, text) => (next code text).run J caps s call
  | .emit topic key payload next, call => next.run J caps s { call with events := call.events ++ [⟨topic, key, payload⟩] }
  | .setResult payload next, call => next.run J caps s { call with result := some payload }

/-! ## What is staged -/

theorem find_stage (o : Overlay) (table key t k : Bytes) (v : Option Json) :
    (o.stage table key v).find t k = if table = t ∧ key = k then some v else o.find t k := by
  rw [Overlay.find, Overlay.stage, OrdMap.getElem?_insert]
  by_cases ht : table = t
  · subst ht
    rw [if_pos rfl, Option.bind_some, OrdMap.getElem?_insert]
    by_cases hk : key = k
    · simp [hk]
    · rw [if_neg hk, if_neg (by simp [hk]), Overlay.find]
      cases o[table]? <;> simp
  · rw [if_neg ht, if_neg (by simp [ht]), Overlay.find]

end Wasm

end OriginDB
