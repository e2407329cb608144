import OriginDB.Websocket.BinaryProtocol
import OriginDB.Storage.Engine
import OriginDB.Lib.Regex
/-!
# From a binary event back to JSON (`binary_protocol.cpp:301-412`)

`ChangefeedEventToBinary` knows the operations in lower case, and takes any other for a truncation; a commit names them in
upper case (`storage_engine.cpp:396-400`). So no event of the storage engine comes back under its operation
(`engine_event_lost`). Of an event whose operation is known the other members come back, and of its data the strings, the
booleans, the doubles that are finite and the integers that an `int64_t` holds (`comesBack_iff`).
-/
namespace OriginDB.BinaryProtocol

open Std ByteCodec Positioned JsonDoc

/-! ## `BinaryToJsonChangefeedEvent` -/

def jsonOf : FieldValue → Json
  | .int64 v => .int v.toInt
  | .double bits => .float bits
  | .string s => .string s
  | .bool b => .bool b

/-- `data_json` (`:396-408`): `null` until a first member is written. -/
def dataJson (data : Fields) : Json :=
  match data.toList with
  | [] => .null
  | l => .object (l.map fun p => (p.1, jsonOf p.2))

/-- The `switch` over the operation (`:379-391`); it has no default. -/
def operationName : OperationType → Option Bytes
  | .insert => some (str "insert")
  | .update => some (str "update")
  | .delete => some (str "delete")
  | .truncate => some (str "truncate")
  | .other _ _ => none

def eventJson (subscriptionId : Bytes) (event : ChangefeedEvent) : Json :=
  .object ([(str "data", dataJson event.data), (str "key", .string event.key)] ++
    (operationName event.operation).toList.map (fun name => (str "operation", .string name)) ++
    [(str "subscription_id", .string subscriptionId), (str "table", .string event.table),
      (str "type", .string (str "changefeed_event"))])

def readEventMessage : Decoding (Bytes × ChangefeedEvent) := do
  let header ← readMessageHeader
  if header.type ≠ changefeedEventType then Reading.throw "Not a changefeed event message"
  else
    let subscriptionId ← readString
    let event ← readChangefeedEvent
    return (subscriptionId, event)

/-- `BinaryToJsonChangefeedEvent` (`:357`); `none` is an exception. -/
def binaryToJsonChangefeedEvent (J : JsonLib) (data : Bytes) : Option Bytes :=
  match readEventMessage ⟨data, 0⟩ with
  | .ok ((subscriptionId, event), _) => J.dump (eventJson subscriptionId event)
  | .error _ => none

/-! ## What is read of a message -/

/-- What `ReadString` reads of a string: a length is written modulo `2 ^ 32`. -/
def cut (s : Bytes) : Bytes := s.take (s.length % 2 ^ 32)

theorem cut_eq_self {s : Bytes} (h : cut s = s) : s.length < 2 ^ 32 := by
  have hlen := congrArg List.length h
  rw [cut, List.length_take] at hlen
  omega

theorem decodes_cut (s : Bytes) : Decodes readString (writeUint32 (UInt32.ofNat s.length) ++ cut s) (cut s) := by
  refine (decodes_writeUint32 _).bind ?_
  have hlen : (UInt32.ofNat s.length).toNat = (cut s).length := by
    rw [UInt32.toNat_ofNat', cut, List.length_take]
    omega
  rw [hlen]
  exact decodes_take _ _

/-- The string `s` is read where it stands, as far as its length says. -/
theorem readString_ok {before s rest t : Bytes} {b : Buffer UInt8}
    (h : readString ⟨before ++ (writeString s ++ rest), before.length⟩ = .ok (t, b)) :
    t = cut s ∧ (s.length < 2 ^ 32 → b = ⟨(before ++ writeString s) ++ rest, (before ++ writeString s).length⟩) := by
  have hsplit : writeString s ++ rest =
      (writeUint32 (UInt32.ofNat s.length) ++ cut s) ++ (s.drop (s.length % 2 ^ 32) ++ rest) := by
    rw [writeString, cut, List.append_assoc, List.append_assoc, ← List.append_assoc (s.take _), List.take_append_drop]
  constructor
  · rw [hsplit] at h
    exact ((decodes_cut s).ok before h).1
  · intro hs
    exact ((decodes_writeString hs).ok before h).2

/-- The members of an event message up to the operation, as far as the lengths before them are right. -/
theorem readEventMessage_ok {payloadSize : UInt32} {flags : UInt8} {subscriptionId table rest sub : Bytes}
    {operation : OperationType} {event : ChangefeedEvent} {b : Buffer UInt8}
    (h : readEventMessage ⟨writeMessageHeader changefeedEventType payloadSize flags ++
      (writeString subscriptionId ++ (writeString table ++ (writeOperationType operation ++ rest))), 0⟩ = .ok ((sub, event), b)) :
    sub = cut subscriptionId ∧ (subscriptionId.length < 2 ^ 32 → event.table = cut table ∧
      (table.length < 2 ^ 32 → event.operation = operation)) := by
  obtain ⟨header, b₁, hheader, h⟩ := bind_ok h
  obtain ⟨rfl, rfl⟩ := (decodes_writeMessageHeader _ _ _).ok [] hheader
  rw [if_neg (by simp)] at h
  obtain ⟨t, b₂, hsub, h⟩ := bind_ok h
  obtain ⟨rfl, hb₂⟩ := readString_ok hsub
  obtain ⟨ev, b₃, hevent, h⟩ := bind_ok h
  cases h
  refine ⟨rfl, fun hlen => ?_⟩
  rw [hb₂ hlen] at hevent
  obtain ⟨t, b₄, htable, hevent⟩ := bind_ok hevent
  obtain ⟨rfl, hb₄⟩ := readString_ok htable
  obtain ⟨op, b₅, hop, hevent⟩ := bind_ok hevent
  obtain ⟨key, b₆, -, hevent⟩ := bind_ok hevent
  obtain ⟨count, b₇, -, hevent⟩ := bind_ok hevent
  obtain ⟨data, b₈, -, hevent⟩ := bind_ok hevent
  cases hevent
  refine ⟨rfl, fun hlen => ?_⟩
  rw [hb₄ hlen] at hop
  exact ((decodes_writeOperationType operation).ok _ hop).1

/-! ## What comes back -/

theorem reparsed_eventJson (subscriptionId : Bytes) (event : ChangefeedEvent) : (eventJson subscriptionId event).reparsed =
    .object ([(str "data", (dataJson event.data).reparsed), (str "key", .string event.key)] ++
      (operationName event.operation).toList.map (fun name => (str "operation", .string name)) ++
      [(str "subscription_id", .string subscriptionId), (str "table", .string event.table),
        (str "type", .string (str "changefeed_event"))]) := by
  rw [eventJson, Json.reparsed, Json.reparsedObject_eq]
  cases operationName event.operation <;> rfl

section
variable (subscriptionId : Bytes) (event : ChangefeedEvent)

theorem member_data : (eventJson subscriptionId event).reparsed.constMember (str "data") =
    some (dataJson event.data).reparsed := by
  rw [reparsed_eventJson]
  cases operationName event.operation <;> rfl

theorem member_key : (eventJson subscriptionId event).reparsed.constMember (str "key") = some (.string event.key) := by
  rw [reparsed_eventJson]
  cases operationName event.operation <;> rfl

theorem member_operation : (eventJson subscriptionId event).reparsed.constMember (str "operation") =
    (operationName event.operation).map .string := by
  rw [reparsed_eventJson]
  cases operationName event.operation <;> rfl

theorem member_subscription_id : (eventJson subscriptionId event).reparsed.constMember (str "subscription_id") =
    some (.string subscriptionId) := by
  rw [reparsed_eventJson]
  cases operationName event.operation <;> rfl

theorem member_table : (eventJson subscriptionId event).reparsed.constMember (str "table") = some (.string event.table) := by
  rw [reparsed_eventJson]
  cases operationName event.operation <;> rfl

end

theorem member_dataJson (data : Fields) (k : Bytes) :
    (dataJson data).reparsed.constMember k = data[k]?.map fun v => (jsonOf v).reparsed := by
  rw [← OrdMap.lookup_toList, dataJson]
  cases data.toList with
  | nil => rfl
  | cons p l =>
    show List.lookup k (Json.reparsedObject _) = _
    rw [Json.reparsedObject_eq, OrdMap.lookup_map, OrdMap.lookup_map, Option.map_map]
    rfl

/-- A changefeed event as a client of the binary protocol is given it in the end. -/
def convertedBack (J : JsonLib) (subscriptionId table operation key jsonData : Bytes) : Option Bytes := do
  let message ← changefeedEventToBinary J subscriptionId table operation key jsonData
  binaryToJsonChangefeedEvent J message

/-- The document has the members of the event, and in its data each of the fields. -/
structure Preserves (subscriptionId table operation key : Bytes) (fields : List (Bytes × Json)) (j : Json) : Prop where
  subscriptionId : j.constMember (str "subscription_id") = some (.string subscriptionId)
  table : j.constMember (str "table") = some (.string table)
  operation : ∃ name, j.constMember (str "operation") = some (.string name) ∧
    name.map Regex.toLower = operation.map Regex.toLower
  key : j.constMember (str "key") = some (.string key)
  data : ∃ d, j.constMember (str "data") = some d ∧ ∀ p ∈ fields, d.constMember p.1 = some p.2

/-- The event of an object comes back as JSON that preserves it. -/
def ComesBack (J : JsonLib) (subscriptionId table operation key jsonData : Bytes) : Prop :=
  ∃ fields out j, J.parse jsonData = some (.object fields) ∧
    convertedBack J subscriptionId table operation key jsonData = some out ∧ J.parse out = some j ∧
    Preserves subscriptionId table operation key fields j

/-- What an operation of the storage engine becomes. -/
theorem operationType_name (op : WriteOp) : operationType op.name = .truncate := by
  cases op <;> decide

theorem truncate_ne_name (op : WriteOp) : (str "truncate").map Regex.toLower ≠ op.name.map Regex.toLower := by
  cases op <;> decide +kernel

/-- **No event of the storage engine comes back**: where anything comes back, its operation is a truncation. -/
theorem engine_event_lost (J : JsonLib) (subscriptionId table : Bytes) (op : WriteOp) (key jsonData : Bytes) :
    ¬ ComesBack J subscriptionId table op.name key jsonData := by
  rintro ⟨fields, out, j, hparse, hback, hout, hpreserves⟩
  simp only [convertedBack, changefeedEventToBinary, hparse, Option.bind_eq_bind, Option.bind_some, Option.pure_def,
    operationType_name] at hback
  rw [binaryToJsonChangefeedEvent] at hback
  split at hback
  · rename_i sub event b hread
    rw [J.parse_dump _ _ hback] at hout
    cases hout
    rw [writeChangefeedEvent] at hread
    obtain ⟨hsub, hrest⟩ := readEventMessage_ok hread
    have hid := hpreserves.subscriptionId
    have htable := hpreserves.table
    obtain ⟨name, hname, hcase⟩ := hpreserves.operation
    rw [member_subscription_id, hsub] at hid
    rw [member_table] at htable
    rw [member_operation] at hname
    injection hid with hid
    injection hid with hid
    injection htable with htable
    injection htable with htable
    -- a string that comes back has a length that the message holds, so what stands behind it is read where it stands
    obtain ⟨hcut, hop⟩ := hrest (cut_eq_self hid)
    rw [hcut] at htable
    rw [hop (cut_eq_self htable)] at hname
    injection hname with hname
    injection hname with hname
    exact truncate_ne_name op (by rw [hname, hcase])
  · cases hback

/-! ## What would come back under the operations that the converter knows -/

theorem fieldsOf_object (fields : List (Bytes × Json)) : fieldsOf (.object fields) =
    OrdMap.insertAll ∅ (fields.filterMap fun p => (fieldOf p.2).map fun v => (p.1, v)) := by
  refine OrdMap.foldl_eq_insertAll (fun m p q h => ?_) (fun m p h => ?_) fields ∅
  · obtain ⟨v, hv, rfl⟩ := Option.map_eq_some_iff.1 h
    rw [hv]
  · rw [Option.map_eq_none_iff.1 h]

section
variable {fields : List (Bytes × Json)}

theorem getElem?_fieldsOf (hd : OrdMap.Distinct fields) {p : Bytes × Json} (hp : p ∈ fields) :
    (fieldsOf (.object fields))[p.1]? = fieldOf p.2 := by
  have hd' : OrdMap.Distinct (fields.filterMap fun p => (fieldOf p.2).map fun v => (p.1, v)) := hd.filterMap fun _ => fieldOf
  rw [fieldsOf_object]
  cases h : fieldOf p.2 with
  | some v => exact OrdMap.getElem?_insertAll_of_mem hd' (List.mem_filterMap.2 ⟨p, hp, by rw [h]; rfl⟩) _
  | none =>
    rw [OrdMap.getElem?_insertAll_of_notMem]
    · simp
    · intro q hq he
      obtain ⟨r, hr, hrq⟩ := List.mem_filterMap.1 hq
      obtain ⟨v, hv, rfl⟩ := Option.map_eq_some_iff.1 hrq
      -- the entry would be one of another field of the same name
      have hsame : r.2 = p.2 := by
        have h1 := OrdMap.lookup_of_mem hd hr
        have h2 := OrdMap.lookup_of_mem hd hp
        rw [he] at h1
        exact Option.some.inj (h1.symm.trans h2)
      rw [hsame, h] at hv
      cases hv

/-- What an event must fit into: lengths and counts of 32 bits. -/
structure EventFits (subscriptionId table key : Bytes) (fields : List (Bytes × Json)) : Prop where
  distinct : OrdMap.Distinct fields
  subscriptionId : subscriptionId.length < 2 ^ 32
  table : table.length < 2 ^ 32
  key : key.length < 2 ^ 32
  count : fields.length < 2 ^ 32
  fields : ∀ p ∈ fields, p.1.length < 2 ^ 32 ∧ ∀ s, p.2 = .string s → s.length < 2 ^ 32

theorem EventFits.toList_perm {subscriptionId table key : Bytes} (h : EventFits subscriptionId table key fields) :
    (fieldsOf (.object fields)).toList.Perm (fields.filterMap fun p => (fieldOf p.2).map fun v => (p.1, v)) := by
  rw [fieldsOf_object]
  exact OrdMap.toList_insertAll_perm (h.distinct.filterMap fun _ => fieldOf)

theorem EventFits.size {subscriptionId table key : Bytes} (h : EventFits subscriptionId table key fields) :
    (fieldsOf (.object fields)).size < 2 ^ 32 := by
  rw [← ExtTreeMap.length_toList, h.toList_perm.length_eq]
  exact Nat.lt_of_le_of_lt (List.length_filterMap_le _ _) h.count

theorem EventFits.strings {subscriptionId table key : Bytes} (h : EventFits subscriptionId table key fields) :
    StringsFit table key (fieldsOf (.object fields)) := by
  refine ⟨h.table, h.key, fun p hp => ?_⟩
  obtain ⟨q, hq, hqp⟩ := List.mem_filterMap.1 (h.toList_perm.mem_iff.1 hp)
  obtain ⟨v, hv, rfl⟩ := Option.map_eq_some_iff.1 hqp
  obtain ⟨hname, hstring⟩ := h.fields q hq
  refine ⟨hname, ?_⟩
  cases hvalue : q.2 <;> rw [hvalue] at hv <;> cases hv
  case string s => exact hstring s hvalue
  all_goals trivial

end

section
variable {J : JsonLib} {subscriptionId table operation key jsonData : Bytes} {fields : List (Bytes × Json)}

theorem decodes_eventMessage (payloadSize : UInt32) {event : ChangefeedEvent} {bytes : Bytes} (hid : subscriptionId.length < 2 ^ 32)
    (hevent : Decodes readChangefeedEvent bytes event) :
    Decodes readEventMessage (writeMessageHeader changefeedEventType payloadSize 0 ++ (writeString subscriptionId ++ bytes))
      (subscriptionId, event) := by
  have hpair := hevent.bind (f := fun event => pure (subscriptionId, event)) (decodes_pure _)
  rw [List.append_nil] at hpair
  refine (decodes_writeMessageHeader _ _ _).bind ?_
  rw [if_neg (by simp)]
  exact (decodes_writeString hid).bind hpair

theorem convertedBack_eq (hparse : J.parse jsonData = some (.object fields)) (h : EventFits subscriptionId table key fields) :
    convertedBack J subscriptionId table operation key jsonData = J.dump (eventJson subscriptionId
      { table := table, operation := operationType operation, key := key, data := fieldsOf (.object fields) }) := by
  have hmessage (payloadSize : UInt32) := decodes_eventMessage payloadSize h.subscriptionId
    (decodes_writeChangefeedEvent (operationType operation) h.strings h.size)
  simp only [convertedBack, changefeedEventToBinary, hparse, Option.bind_eq_bind, Option.bind_some, Option.pure_def]
  rw [binaryToJsonChangefeedEvent]
  have hrun := (hmessage (UInt32.ofNat (writeString subscriptionId ++
    writeChangefeedEvent table (operationType operation) key (fieldsOf (.object fields))).length)).run [] []
  simp only [List.append_nil, List.nil_append, List.length_nil] at hrun
  rw [hrun]

/-- A value that is the same after its field has been written, read and printed. -/
def Kept : Json → Prop
  | .int v => -(2 ^ 63) ≤ v ∧ v < 2 ^ 63
  | .float bits => Json.nonFinite bits = false
  | .string _ => True
  | .bool _ => True
  | _ => False

theorem kept_iff (j : Json) : ((fieldOf j).map fun v => (jsonOf v).reparsed) = some j ↔ Kept j := by
  cases j with
  | int v =>
    simp only [fieldOf, Option.map_some, jsonOf, Json.reparsed, Kept, Option.some.injEq, Json.int.injEq]
    constructor
    · intro h
      rw [← h]
      exact ⟨Int64.le_toInt _, Int64.toInt_lt _⟩
    · rintro ⟨hlow, hhigh⟩
      exact Int64.toInt_ofInt_of_le hlow hhigh
  | float bits =>
    cases h : Json.nonFinite bits <;> simp [fieldOf, jsonOf, Json.reparsed, Kept, h]
  | _ => simp [fieldOf, jsonOf, Json.reparsed, Kept]

/-- **Under an operation that the converter knows, an event comes back when each of its values is one of the four kinds**,
and printed at all. -/
theorem comesBack_iff {out : Bytes} (hop : operation ∈ [str "insert", str "update", str "delete"])
    (hparse : J.parse jsonData = some (.object fields)) (h : EventFits subscriptionId table key fields)
    (hout : convertedBack J subscriptionId table operation key jsonData = some out) :
    ComesBack J subscriptionId table operation key jsonData ↔ ∀ p ∈ fields, Kept p.2 := by
  have hdump := hout
  rw [convertedBack_eq hparse h] at hdump
  have hname : (operationName (operationType operation)) = some operation := by
    simp only [List.mem_cons, List.not_mem_nil, or_false] at hop
    rcases hop with rfl | rfl | rfl <;> decide +kernel
  have hfield : ∀ p ∈ fields, (dataJson (fieldsOf (.object fields))).reparsed.constMember p.1 = some p.2 ↔ Kept p.2 := by
    intro p hp
    rw [member_dataJson, getElem?_fieldsOf h.distinct hp, kept_iff]
  constructor
  · rintro ⟨fields', out', j, hparse', hout', hj, hpreserves⟩
    rw [hparse] at hparse'
    cases hparse'
    rw [hout] at hout'
    cases hout'
    rw [J.parse_dump _ _ hdump] at hj
    cases hj
    obtain ⟨d, hd, hall⟩ := hpreserves.data
    rw [member_data] at hd
    cases hd
    exact fun p hp => (hfield p hp).1 (hall p hp)
  · intro hkept
    refine ⟨fields, out, _, hparse, hout, J.parse_dump _ _ hdump, member_subscription_id _ _, member_table _ _, ?_,
      member_key _ _, _, member_data _ _, fun p hp => (hfield p hp).2 (hkept p hp)⟩
    refine ⟨operation, ?_, rfl⟩
    rw [member_operation, hname]
    rfl

end

def activeUser : List (Bytes × Json) := [(str "active", .bool true)]

/-- What an INSERT of `activeUser` comes back as. -/
def truncatedUser : Json := .object
  [(str "data", .object activeUser), (str "key", .string (str "u1")), (str "operation", .string (str "truncate")),
    (str "subscription_id", .string (str "s1")), (str "table", .string (str "users")),
    (str "type", .string (str "changefeed_event"))]

def activeText : Bytes := str "\x7b\"active\":true\x7d"

def truncatedText : Bytes :=
  str "\x7b\"data\":\x7b\"active\":true\x7d,\"key\":\"u1\",\"operation\":\"truncate\"," ++
    str "\"subscription_id\":\"s1\",\"table\":\"users\",\"type\":\"changefeed_event\"\x7d"

/-- A library that knows both documents. -/
def twoDocuments : JsonLib :=
  JsonLib.ofTable [(.object activeUser, activeText), (truncatedUser, truncatedText)] (by decide +kernel)

theorem fits_activeUser : EventFits (str "s1") (str "users") (str "u1") activeUser := by
  refine ⟨List.nodup_singleton _, by decide +kernel, by decide +kernel, by decide +kernel, by decide, ?_⟩
  intro p hp
  rw [List.mem_singleton.1 hp]
  refine ⟨by decide +kernel, fun s hs => ?_⟩
  cases hs

theorem eventJson_activeUser : eventJson (str "s1")
    { table := str "users", operation := .truncate, key := str "u1", data := fieldsOf (.object activeUser) } = truncatedUser := by
  have hlist : (fieldsOf (.object activeUser)).toList = [(str "active", .bool true)] := by
    rw [fieldsOf_object]
    exact OrdMap.toList_insertAll (List.pairwise_singleton _ _)
  rw [eventJson, dataJson, hlist]
  rfl

/-- An INSERT comes back as a truncation. -/
theorem insert_becomes_truncate : ∃ out j,
    convertedBack twoDocuments (str "s1") (str "users") WriteOp.insert.name (str "u1") activeText = some out ∧
    twoDocuments.parse activeText = some (.object activeUser) ∧ twoDocuments.parse out = some j ∧
    j.constMember (str "operation") = some (.string (str "truncate")) ∧
    ¬ Preserves (str "s1") (str "users") WriteOp.insert.name (str "u1") activeUser j := by
  have hparse : twoDocuments.parse activeText = some (.object activeUser) := by decide +kernel
  have hdump : twoDocuments.dump truncatedUser = some truncatedText := by decide +kernel
  have hmember : truncatedUser.constMember (str "operation") = some (.string (str "truncate")) := by decide
  refine ⟨truncatedText, truncatedUser, ?_, hparse, by decide +kernel, hmember, fun hpreserves => ?_⟩
  · rw [convertedBack_eq hparse fits_activeUser, operationType_name, eventJson_activeUser, hdump]
  · obtain ⟨name, hname, hcase⟩ := hpreserves.operation
    rw [hmember] at hname
    cases hname
    exact truncate_ne_name .insert hcase

end OriginDB.BinaryProtocol
