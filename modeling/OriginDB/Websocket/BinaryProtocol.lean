import OriginDB.Lib.Json
import OriginDB.Lib.Positioned
import OriginDB.Storage.Table
/-!
# The binary protocol (`include/websocket/binary_protocol.h`, `src/websocket/binary_protocol.cpp`)

A `BinarySerializer` only appends, so it is what it writes; a `BinaryDeserializer` is a buffer and its `position_`. Integers
stand most significant byte first, strings behind their length. The reader stays in its buffer whatever it is given
(`stays_readChangefeedEvent`), and it reads back what has been written (`decodes_writeChangefeedEvent`) unless there are more
fields than a `uint32_t` can count; the header counts the bytes behind it unless they are more than that (`binary_codec_iff`).

A `double` is its bits. A buffer has fewer than `2 ^ 63` bytes, so the sums of `EnsureAvailable` do not wrap. The messages
other than changefeed events, and the fields of 8, 16 and 32 bits, come later (`BinaryMessages`).
-/
namespace OriginDB.BinaryProtocol

open Std ByteCodec Positioned JsonDoc

/-! ## The enumerations -/

/-- `DataType` (binary_protocol.h:47); `other` is any further byte a `static_cast` may put there. -/
inductive DataType where
  | nullType | bool | int8 | int16 | int32 | int64 | float32 | float64 | string | binary | array | map | timestamp
  | other (code : UInt8) (unnamed : 0x0c < code.toNat)
deriving DecidableEq

def DataType.code : DataType → UInt8
  | .nullType => 0x00 | .bool => 0x01 | .int8 => 0x02 | .int16 => 0x03 | .int32 => 0x04 | .int64 => 0x05 | .float32 => 0x06
  | .float64 => 0x07 | .string => 0x08 | .binary => 0x09 | .array => 0x0a | .map => 0x0b | .timestamp => 0x0c
  | .other code _ => code

def DataType.ofCode (code : UInt8) : DataType :=
  if h : 0x0c < code.toNat then .other code h
  else match code.toNat with
    | 0x00 => .nullType | 0x01 => .bool | 0x02 => .int8 | 0x03 => .int16 | 0x04 => .int32 | 0x05 => .int64 | 0x06 => .float32
    | 0x07 => .float64 | 0x08 => .string | 0x09 => .binary | 0x0a => .array | 0x0b => .map | _ => .timestamp

@[simp] theorem DataType.ofCode_code (t : DataType) : ofCode t.code = t := by
  cases t with
  | other code h => exact dif_pos h
  | _ => rfl

/-- `OperationType` (binary_protocol.h:63). -/
inductive OperationType where
  | insert | update | delete | truncate
  | other (code : UInt8) (unnamed : code.toNat = 0 ∨ 0x04 < code.toNat)
deriving DecidableEq

def OperationType.code : OperationType → UInt8
  | .insert => 0x01 | .update => 0x02 | .delete => 0x03 | .truncate => 0x04
  | .other code _ => code

def OperationType.ofCode (code : UInt8) : OperationType :=
  if h : code.toNat = 0 ∨ 0x04 < code.toNat then .other code h
  else match code.toNat with
    | 0x01 => .insert | 0x02 => .update | 0x03 => .delete | _ => .truncate

@[simp] theorem OperationType.ofCode_code (t : OperationType) : ofCode t.code = t := by
  cases t with
  | other code h => exact dif_pos h
  | _ => rfl

/-- `std::variant<int64_t, double, std::string, bool>`. -/
inductive FieldValue where
  | int64 (v : Int64)
  | double (bits : UInt64)
  | string (s : Bytes)
  | bool (b : Bool)
deriving DecidableEq

abbrev Fields := StrMap FieldValue

/-- `BinaryMessageHeader`; a `MessageType` is kept by its code. -/
structure BinaryMessageHeader where
  magic : UInt8 × UInt8
  type : UInt8
  flags : UInt8
  payloadSize : UInt32
deriving DecidableEq

/-- `MessageType::CHANGEFEED_EVENT`. -/
def changefeedEventType : UInt8 := 0x20

/-- `BinaryDeserializer::ChangefeedEvent`. -/
structure ChangefeedEvent where
  table : Bytes
  operation : OperationType
  key : Bytes
  data : Fields

/-! ## `BinarySerializer` -/

def writeUint8 (value : UInt8) : Bytes := [value]

def writeUint32 (value : UInt32) : Bytes := putBE 4 value.toNat

def writeUint64 (value : UInt64) : Bytes := putBE 8 value.toNat

def writeInt64 (value : Int64) : Bytes := writeUint64 value.toUInt64

def writeDouble (bits : UInt64) : Bytes := writeUint64 bits

def writeString (value : Bytes) : Bytes := writeUint32 (UInt32.ofNat value.length) ++ value

def writeMessageHeader (type : UInt8) (payloadSize : UInt32) (flags : UInt8) : Bytes :=
  writeUint8 0xdb ++ writeUint8 0x01 ++ writeUint8 type ++ writeUint8 flags ++ writeUint32 payloadSize

def writeDataType (type : DataType) : Bytes := writeUint8 type.code

def writeOperationType (type : OperationType) : Bytes := writeUint8 type.code

/-- The type and the value of one field (`:132-147`). -/
def writeFieldValue : FieldValue → Bytes
  | .int64 v => writeDataType .int64 ++ writeInt64 v
  | .double bits => writeDataType .float64 ++ writeDouble bits
  | .string s => writeDataType .string ++ writeString s
  | .bool b => writeDataType .bool ++ writeUint8 (if b then 1 else 0)

def writeField (p : Bytes × FieldValue) : Bytes := writeString p.1 ++ writeFieldValue p.2

/-- `WriteChangefeedEvent` (`:112`); a `std::map` is iterated in the order of its keys. -/
def writeChangefeedEvent (table : Bytes) (operation : OperationType) (key : Bytes) (data : Fields) : Bytes :=
  writeString table ++ (writeOperationType operation ++ (writeString key ++
    (writeUint32 (UInt32.ofNat data.size) ++ data.toList.flatMap writeField)))

/-! ## `BinaryDeserializer` -/

/-- A `BinaryDeserializer` at work; what it throws is a `std::runtime_error`. -/
abbrev Decoding := Reading UInt8 String

def insufficient : String := "Insufficient data in buffer"

def readUint8 : Decoding UInt8 := (fun bs => UInt8.ofNat (getBE bs)) <$> take 1 insufficient

def readUint32 : Decoding UInt32 := (fun bs => UInt32.ofNat (getBE bs)) <$> take 4 insufficient

def readUint64 : Decoding UInt64 := (fun bs => UInt64.ofNat (getBE bs)) <$> take 8 insufficient

def readInt64 : Decoding Int64 := UInt64.toInt64 <$> readUint64

def readDouble : Decoding UInt64 := readUint64

def readString : Decoding Bytes := do
  let length ← readUint32
  take length.toNat insufficient

def readMessageHeader : Decoding BinaryMessageHeader := do
  let magic0 ← readUint8
  let magic1 ← readUint8
  let type ← readUint8
  let flags ← readUint8
  let payloadSize ← readUint32
  return { magic := (magic0, magic1), type := type, flags := flags, payloadSize := payloadSize }

def readDataType : Decoding DataType := DataType.ofCode <$> readUint8

def readOperationType : Decoding OperationType := OperationType.ofCode <$> readUint8

/-- The `switch` over the type of a field (`:278-293`). -/
def readFieldValue : DataType → Decoding FieldValue
  | .int64 => FieldValue.int64 <$> readInt64
  | .float64 => FieldValue.double <$> readDouble
  | .string => FieldValue.string <$> readString
  | .bool => (fun b => FieldValue.bool (b != 0)) <$> readUint8
  | _ => Reading.throw "Unsupported data type in changefeed event"

/-- The loop over the fields: a name that comes again takes the later value. -/
def readFields : Nat → Fields → Decoding Fields
  | 0, data => pure data
  | fieldCount + 1, data => do
    let fieldName ← readString
    let type ← readDataType
    let value ← readFieldValue type
    readFields fieldCount (data.insert fieldName value)

/-- `ReadChangefeedEvent` (`:266`). -/
def readChangefeedEvent : Decoding ChangefeedEvent := do
  let table ← readString
  let operation ← readOperationType
  let key ← readString
  let fieldCount ← readUint32
  let data ← readFields fieldCount.toNat ∅
  return { table := table, operation := operation, key := key, data := data }

/-! ## The reader stays in its buffer -/

theorem stays_readUint8 : Stays readUint8 := (stays_take _ _).map _

theorem stays_readUint32 : Stays readUint32 := (stays_take _ _).map _

theorem stays_readUint64 : Stays readUint64 := (stays_take _ _).map _

theorem stays_readString : Stays readString := stays_readUint32.bind fun _ => stays_take _ _

theorem stays_readFieldValue (type : DataType) : Stays (readFieldValue type) := by
  cases type with
  | int64 => exact (stays_readUint64.map _).map _
  | float64 => exact stays_readUint64.map _
  | string => exact stays_readString.map _
  | bool => exact stays_readUint8.map _
  | _ => exact stays_throw _

theorem stays_readFields (fieldCount : Nat) (data : Fields) : Stays (readFields fieldCount data) := by
  induction fieldCount generalizing data with
  | zero => exact stays_pure data
  | succ fieldCount ih =>
    exact stays_readString.bind fun _ => (stays_readUint8.map _).bind fun type =>
      (stays_readFieldValue type).bind fun _ => ih _

/-- **Whatever the buffer holds, the reader throws or stays in it.** -/
theorem stays_readChangefeedEvent : Stays readChangefeedEvent :=
  stays_readString.bind fun _ => (stays_readUint8.map _).bind fun _ => stays_readString.bind fun _ =>
    stays_readUint32.bind fun _ => (stays_readFields _ _).bind fun _ => stays_pure _

/-! ## The reader reads what has been written -/

theorem decodes_integer (k value : Nat) (h : value < 256 ^ k) (what : String) :
    Decodes (getBE <$> take k what) (putBE k value) value := by
  have htake := (decodes_take (putBE k value) what).map (f := getBE)
  rwa [length_putBE, getBE_putBE_of_lt h] at htake

theorem decodes_writeUint8 (value : UInt8) : Decodes readUint8 (writeUint8 value) value := by
  have hvalue : UInt8.ofNat (getBE [value]) = value := by simp [getBE, getLE]
  have h := (decodes_take [value] insufficient).map (f := fun bs => UInt8.ofNat (getBE bs))
  rwa [hvalue] at h

theorem decodes_writeUint32 (value : UInt32) : Decodes readUint32 (writeUint32 value) value := by
  have h := (decodes_integer 4 value.toNat value.toNat_lt insufficient).map (f := UInt32.ofNat)
  rwa [← comp_map, UInt32.ofNat_toNat] at h

theorem decodes_writeUint64 (value : UInt64) : Decodes readUint64 (writeUint64 value) value := by
  have h := (decodes_integer 8 value.toNat value.toNat_lt insufficient).map (f := UInt64.ofNat)
  rwa [← comp_map, UInt64.ofNat_toNat] at h

theorem decodes_writeInt64 (value : Int64) : Decodes readInt64 (writeInt64 value) value := by
  have h := (decodes_writeUint64 value.toUInt64).map (f := UInt64.toInt64)
  rwa [Int64.toInt64_toUInt64] at h

theorem toNat_length {s : Bytes} (h : s.length < 2 ^ 32) : (UInt32.ofNat s.length).toNat = s.length :=
  UInt32.toNat_ofNat_of_lt' h

theorem decodes_writeString {s : Bytes} (h : s.length < 2 ^ 32) : Decodes readString (writeString s) s := by
  refine (decodes_writeUint32 _).bind ?_
  rw [toNat_length h]
  exact decodes_take s insufficient

theorem decodes_writeDataType (type : DataType) : Decodes readDataType (writeDataType type) type := by
  have h := (decodes_writeUint8 type.code).map (f := DataType.ofCode)
  rwa [DataType.ofCode_code] at h

theorem decodes_writeOperationType (type : OperationType) : Decodes readOperationType (writeOperationType type) type := by
  have h := (decodes_writeUint8 type.code).map (f := OperationType.ofCode)
  rwa [OperationType.ofCode_code] at h

def FieldValue.Fits : FieldValue → Prop
  | .string s => s.length < 2 ^ 32
  | _ => True

theorem decodes_writeFieldValue {value : FieldValue} (h : value.Fits) :
    Decodes (readDataType >>= readFieldValue) (writeFieldValue value) value := by
  cases value with
  | int64 v => exact (decodes_writeDataType .int64).bind (decodes_writeInt64 v).map
  | double bits => exact (decodes_writeDataType .float64).bind (decodes_writeUint64 bits).map
  | string s => exact (decodes_writeDataType .string).bind (decodes_writeString h).map
  | bool b =>
    refine (decodes_writeDataType .bool).bind ?_
    have hbool := (decodes_writeUint8 (if b then 1 else 0)).map (f := fun b => FieldValue.bool (b != 0))
    cases b <;> exact hbool

theorem decodes_writeFields (l : List (Bytes × FieldValue)) (h : ∀ p ∈ l, p.1.length < 2 ^ 32 ∧ p.2.Fits) (data : Fields) :
    Decodes (readFields l.length data) (l.flatMap writeField) (OrdMap.insertAll data l) := by
  induction l generalizing data with
  | nil => exact decodes_pure data
  | cons p l ih =>
    obtain ⟨hname, hvalue⟩ := h p List.mem_cons_self
    have hrest := ih (fun q hq => h q (List.mem_cons_of_mem _ hq)) (data.insert p.1 p.2)
    have hstep := (decodes_writeString hname).bind
      (f := fun fieldName => (readDataType >>= readFieldValue) >>= fun value => readFields l.length (data.insert fieldName value))
      ((decodes_writeFieldValue hvalue).bind hrest)
    rw [List.flatMap_cons, writeField, List.append_assoc]
    simp only [bind_assoc] at hstep
    exact hstep

/-- What is read of an event is what its count announces. -/
theorem decodes_counted {table key : Bytes} (htable : table.length < 2 ^ 32) (hkey : key.length < 2 ^ 32)
    (operation : OperationType) {n : Nat} {l : List (Bytes × FieldValue)} (hl : l.length = n % 2 ^ 32)
    (hfields : ∀ p ∈ l, p.1.length < 2 ^ 32 ∧ p.2.Fits) :
    Decodes readChangefeedEvent
      (writeString table ++ (writeOperationType operation ++ (writeString key ++
        (writeUint32 (UInt32.ofNat n) ++ l.flatMap writeField))))
      { table := table, operation := operation, key := key, data := OrdMap.insertAll ∅ l } := by
  have hcount : (UInt32.ofNat n).toNat = l.length := by rw [UInt32.toNat_ofNat', hl]
  have hdata := (decodes_writeFields l hfields ∅).bind
    (f := fun data => pure (⟨table, operation, key, data⟩ : ChangefeedEvent)) (decodes_pure _)
  rw [List.append_nil] at hdata
  refine (decodes_writeString htable).bind ((decodes_writeOperationType operation).bind ((decodes_writeString hkey).bind
    ((decodes_writeUint32 _).bind ?_)))
  rw [hcount]
  exact hdata

/-- The names and the strings of the fields have lengths that a `uint32_t` holds, and so have table and key. -/
structure StringsFit (table key : Bytes) (data : Fields) : Prop where
  table : table.length < 2 ^ 32
  key : key.length < 2 ^ 32
  fields : ∀ p ∈ data.toList, p.1.length < 2 ^ 32 ∧ p.2.Fits

section
variable {table key : Bytes} {operation : OperationType} {data : Fields}

theorem decodes_writeChangefeedEvent (operation : OperationType) (h : StringsFit table key data) (hsize : data.size < 2 ^ 32) :
    Decodes readChangefeedEvent (writeChangefeedEvent table operation key data)
      { table := table, operation := operation, key := key, data := data } := by
  have hlen : data.toList.length = data.size % 2 ^ 32 := by rw [ExtTreeMap.length_toList, Nat.mod_eq_of_lt hsize]
  have hread := decodes_counted h.table h.key operation hlen h.fields
  rwa [OrdMap.insertAll_perm (List.Perm.refl _)] at hread

/-- The event is read back from in front of `rest`, and the reader stands at `rest`. -/
def ReadsBack (table : Bytes) (operation : OperationType) (key : Bytes) (data : Fields) (rest : Bytes) : Prop :=
  readChangefeedEvent ⟨writeChangefeedEvent table operation key data ++ rest, 0⟩ =
    .ok ({ table := table, operation := operation, key := key, data := data },
      ⟨writeChangefeedEvent table operation key data ++ rest, (writeChangefeedEvent table operation key data).length⟩)

/-- **Exactly the maps whose size the count holds are read back**: of a larger one the first fields are all that is read. -/
theorem readsBack_iff (h : StringsFit table key data) (rest : Bytes) :
    ReadsBack table operation key data rest ↔ data.size < 2 ^ 32 := by
  constructor
  · intro hback
    by_contra hlarge
    have hlt : data.size % 2 ^ 32 < data.size := by omega
    have hlen : (data.toList.take (data.size % 2 ^ 32)).length = data.size % 2 ^ 32 := by
      rw [List.length_take, ExtTreeMap.length_toList]
      omega
    have hread := (decodes_counted h.table h.key operation hlen fun p hp => h.fields p (List.mem_of_mem_take hp)).run
      [] ((data.toList.drop (data.size % 2 ^ 32)).flatMap writeField ++ rest)
    have hbytes : writeChangefeedEvent table operation key data ++ rest =
        writeString table ++ (writeOperationType operation ++ (writeString key ++ (writeUint32 (UInt32.ofNat data.size) ++
          (data.toList.take (data.size % 2 ^ 32)).flatMap writeField))) ++
        ((data.toList.drop (data.size % 2 ^ 32)).flatMap writeField ++ rest) := by
      have hsplit : data.toList.flatMap writeField = (data.toList.take (data.size % 2 ^ 32)).flatMap writeField ++
          (data.toList.drop (data.size % 2 ^ 32)).flatMap writeField := by
        rw [← List.flatMap_append, List.take_append_drop]
      rw [writeChangefeedEvent, hsplit]
      simp only [List.append_assoc]
    simp only [List.nil_append, List.length_nil] at hread
    rw [← hbytes] at hread
    rw [ReadsBack, hread] at hback
    have hdata : OrdMap.insertAll ∅ (data.toList.take (data.size % 2 ^ 32)) = data := by
      injection hback with hback
      injection hback with hevent _
      injection hevent
    have hordered : (data.toList.take (data.size % 2 ^ 32)).Pairwise fun p q => compare p.1 q.1 = .lt :=
      ExtTreeMap.ordered_keys_toList.sublist (List.take_sublist _ _)
    have hlist := OrdMap.toList_insertAll hordered
    rw [hdata] at hlist
    have hsize := congrArg List.length hlist
    rw [hlen, ExtTreeMap.length_toList] at hsize
    omega
  · intro hsize
    exact (decodes_writeChangefeedEvent operation h hsize).run [] rest

end

/-! ## How long what is written is -/

def fieldSize (p : Bytes × FieldValue) : Nat :=
  4 + p.1.length + 1 + match p.2 with
    | .int64 _ => 8
    | .double _ => 8
    | .string s => 4 + s.length
    | .bool _ => 1

def eventSize (table key : Bytes) (data : Fields) : Nat :=
  4 + table.length + 1 + (4 + key.length) + 4 + (data.toList.map fieldSize).sum

theorem le_eventSize (table key : Bytes) (data : Fields) : table.length + key.length ≤ eventSize table key data := by
  unfold eventSize
  omega

@[simp] theorem length_writeString (s : Bytes) : (writeString s).length = 4 + s.length := by
  simp [writeString, writeUint32]

theorem length_writeField (p : Bytes × FieldValue) : (writeField p).length = fieldSize p := by
  obtain ⟨name, value⟩ := p
  cases value <;>
    simp [writeField, fieldSize, writeFieldValue, writeDataType, writeUint8, writeInt64, writeDouble, writeUint64]
  all_goals omega

theorem length_writeChangefeedEvent (table : Bytes) (operation : OperationType) (key : Bytes) (data : Fields) :
    (writeChangefeedEvent table operation key data).length = eventSize table key data := by
  have hfields : (data.toList.flatMap writeField).length = (data.toList.map fieldSize).sum := by
    rw [List.length_flatMap]
    exact congrArg List.sum (List.map_congr_left fun p _ => length_writeField p)
  simp only [writeChangefeedEvent, List.length_append, length_writeString, hfields, eventSize]
  simp [writeOperationType, writeUint8, writeUint32]
  omega

/-! ## `ChangefeedEventToBinary` -/

/-- The operation of a text (`:314-323`). -/
def operationType (operation : Bytes) : OperationType :=
  if operation = str "insert" then .insert
  else if operation = str "update" then .update
  else if operation = str "delete" then .delete
  else .truncate

/-- What a JSON value becomes as a field (`:328-336`): an integer of the `int64_t` of its bits, `null`, an array and an
object none. -/
def fieldOf : Json → Option FieldValue
  | .int v => some (.int64 (Int64.ofInt v))
  | .float bits => some (.double bits)
  | .string s => some (.string s)
  | .bool b => some (.bool b)
  | _ => none

/-- The map of the fields (`:326-337`). -/
def fieldsOf (json : Json) : Fields :=
  json.items.foldl (fun data p =>
    match fieldOf p.2 with
    | some value => data.insert p.1 value
    | none => data) ∅

/-- `ChangefeedEventToBinary` (`:302`); `none` is a text that is not JSON. -/
def changefeedEventToBinary (J : JsonLib) (subscriptionId table operation key jsonData : Bytes) : Option Bytes := do
  let json ← J.parse jsonData
  let payload := writeString subscriptionId ++ writeChangefeedEvent table (operationType operation) key (fieldsOf json)
  return writeMessageHeader changefeedEventType (UInt32.ofNat payload.length) 0 ++ payload

/-- The size in the header of a message is the number of bytes behind the header. -/
def SizeStated (m : Bytes) : Prop :=
  ∃ header b, readMessageHeader ⟨m, 0⟩ = .ok (header, b) ∧ header.payloadSize.toNat = b.remaining

theorem decodes_writeMessageHeader (type flags : UInt8) (payloadSize : UInt32) :
    Decodes readMessageHeader (writeMessageHeader type payloadSize flags)
      { magic := (0xdb, 0x01), type := type, flags := flags, payloadSize := payloadSize } := by
  have hsize := (decodes_writeUint32 payloadSize).bind
    (f := fun payloadSize => pure (⟨(0xdb, 0x01), type, flags, payloadSize⟩ : BinaryMessageHeader)) (decodes_pure _)
  rw [List.append_nil] at hsize
  simp only [writeMessageHeader, List.append_assoc]
  exact (decodes_writeUint8 0xdb).bind ((decodes_writeUint8 0x01).bind ((decodes_writeUint8 type).bind
    ((decodes_writeUint8 flags).bind hsize)))

theorem sizeStated_iff (payload : Bytes) (type flags : UInt8) :
    SizeStated (writeMessageHeader type (UInt32.ofNat payload.length) flags ++ payload) ↔ payload.length < 2 ^ 32 := by
  have hread := (decodes_writeMessageHeader type flags (UInt32.ofNat payload.length)).run [] payload
  simp only [List.nil_append, List.length_nil] at hread
  have hlen : (writeMessageHeader type (UInt32.ofNat payload.length) flags).length = 8 := by
    simp [writeMessageHeader, writeUint8, writeUint32]
  have hmod : (UInt32.ofNat payload.length).toNat = payload.length % 2 ^ 32 := UInt32.toNat_ofNat'
  constructor
  · rintro ⟨header, b, hread', hsize⟩
    rw [hread] at hread'
    cases hread'
    simp only [Buffer.remaining, List.length_append, hlen, hmod] at hsize
    omega
  · intro h
    refine ⟨_, _, hread, ?_⟩
    simp only [Buffer.remaining, List.length_append, hlen, hmod]
    omega

theorem sizeStated_message {J : JsonLib} {jsonData : Bytes} {json : Json} (hparse : J.parse jsonData = some json)
    (subscriptionId table operation key : Bytes) :
    ∃ m, changefeedEventToBinary J subscriptionId table operation key jsonData = some m ∧
      (SizeStated m ↔ 4 + subscriptionId.length + eventSize table key (fieldsOf json) < 2 ^ 32) := by
  have hlen : (writeString subscriptionId ++
      writeChangefeedEvent table (operationType operation) key (fieldsOf json)).length =
      4 + subscriptionId.length + eventSize table key (fieldsOf json) := by
    rw [List.length_append, length_writeString, length_writeChangefeedEvent]
  refine ⟨_, by rw [changefeedEventToBinary, hparse]; rfl, ?_⟩
  rw [sizeStated_iff, hlen]

/-- **The codec keeps its promises but for what a `uint32_t` cannot count**: an event is read back exactly when it has fewer
than `2 ^ 32` fields, a header states the size of its payload exactly when that is below `2 ^ 32`, and the reader throws or
stays in its buffer. -/
theorem binary_codec_iff {table key : Bytes} {data : Fields} (h : StringsFit table key data) (operation : OperationType)
    (rest : Bytes) {J : JsonLib} {jsonData : Bytes} {json : Json} (hparse : J.parse jsonData = some json)
    (subscriptionId table' operation' key' bytes : Bytes) :
    (ReadsBack table operation key data rest ↔ data.size < 2 ^ 32) ∧
    (∃ m, changefeedEventToBinary J subscriptionId table' operation' key' jsonData = some m ∧
      (SizeStated m ↔ 4 + subscriptionId.length + eventSize table' key' (fieldsOf json) < 2 ^ 32)) ∧
    ((∃ what, readChangefeedEvent ⟨bytes, 0⟩ = .error (.threw what)) ∨
      ∃ ev b, readChangefeedEvent ⟨bytes, 0⟩ = .ok (ev, b) ∧ b.data = bytes ∧ b.position ≤ bytes.length) := by
  refine ⟨readsBack_iff h rest, sizeStated_message hparse subscriptionId table' operation' key', ?_⟩
  rcases stays_readChangefeedEvent ⟨bytes, 0⟩ (Nat.zero_le _) with hthrew | ⟨ev, b, hok, hdata, hwithin⟩
  · exact .inl hthrew
  · refine .inr ⟨ev, b, hok, hdata, ?_⟩
    rw [← show b.data = bytes from hdata]
    exact hwithin

/-- A library that knows the empty object. -/
def emptyObject : JsonLib := JsonLib.ofTable [(.object [], str "\x7b\x7d")] (by
  intro d hd
  rw [List.mem_singleton.1 hd]
  exact ⟨by decide, rfl⟩)

def oneField : Fields := OrdMap.insertAll ∅ [(str "active", .bool true)]

theorem toList_oneField : oneField.toList = [(str "active", .bool true)] :=
  OrdMap.toList_insertAll (List.pairwise_singleton _ _)

theorem parse_emptyObject : emptyObject.parse (str "\x7b\x7d") = some (.object []) := by
  simp [emptyObject, JsonLib.ofTable, parseTable, Json.reparsed, Json.reparsedObject]

theorem fits_oneField : StringsFit (str "users") (str "u1") oneField := by
  refine ⟨by decide, by decide, fun p hp => ?_⟩
  rw [toList_oneField] at hp
  rw [List.mem_singleton.1 hp]
  exact ⟨by decide, trivial⟩

theorem binary_codec_one : ReadsBack (str "users") .insert (str "u1") oneField (str "next") ∧
    ∃ m, changefeedEventToBinary emptyObject (str "s1") (str "users") (str "insert") (str "u1") (str "\x7b\x7d") = some m ∧
      SizeStated m := by
  obtain ⟨hread, ⟨m, hm, hsize⟩, -⟩ := binary_codec_iff fits_oneField .insert (str "next") parse_emptyObject (str "s1")
    (str "users") (str "insert") (str "u1") []
  refine ⟨hread.2 ?_, m, hm, hsize.2 (by decide)⟩
  rw [← ExtTreeMap.length_toList, toList_oneField]
  decide

def longName (b : UInt8) : Bytes := List.replicate (2 ^ 31) b

theorem length_longName (b : UInt8) : (longName b).length = 2 ^ 31 := List.length_replicate

/-- A table and a key of two gibibytes each: the header of their event announces a payload of 19 bytes. -/
theorem payload_size_wraps : ∃ m,
    changefeedEventToBinary emptyObject (str "s1") (longName 97) (str "insert") (longName 98) (str "\x7b\x7d") = some m ∧
    (longName 97).length < 2 ^ 32 ∧ (longName 98).length < 2 ^ 32 ∧ ¬ SizeStated m := by
  obtain ⟨m, hm, hiff⟩ := sizeStated_message parse_emptyObject (str "s1") (longName 97) (str "insert") (longName 98)
  have hlt : ∀ b, (longName b).length < 2 ^ 32 := by
    intro b
    rw [length_longName]
    decide
  have hlarge : 2 ^ 32 ≤ eventSize (longName 97) (longName 98) (fieldsOf (.object [])) := by
    have hle := le_eventSize (longName 97) (longName 98) (fieldsOf (.object []))
    rwa [length_longName, length_longName] at hle
  refine ⟨m, hm, hlt 97, hlt 98, fun hstated => ?_⟩
  exact Nat.not_lt_of_le (Nat.le_trans hlarge (Nat.le_add_left _ _)) (hiff.1 hstated)

end OriginDB.BinaryProtocol
