import Mathlib.Algebra.Order.BigOperators.Group.List
import OriginDB.Lib.Utf16
import OriginDB.Websocket.BinaryConverter
/-!
# Fields and messages of the binary protocol (`src/websocket/binary_protocol.cpp:14-297, 414-508`)

Whatever is written field by field is read back by the same fields in the same order, from anywhere in a buffer. A message is a
header and the fields of its payload; the type in the header says which these are, and its size where the next message begins. It can be
told from a text: no UTF-8 begins with the two magic bytes, since the first of them wants a continuation byte behind it.

Of the messages the source reads only events (`BinaryToJsonChangefeedEvent`); `readMessage` makes the same calls of the
`BinaryDeserializer` for each of the types that `ProtocolConverter` writes.
-/
namespace OriginDB.BinaryProtocol

open ByteCodec Positioned JsonDoc

/-! ## Fields -/

/-- What `BinarySerializer` has a `Write` for, but for the header of a message; a `float` and a `double` are their bits. -/
inductive Item where
  | uint8 (value : UInt8)
  | uint16 (value : UInt16)
  | uint32 (value : UInt32)
  | uint64 (value : UInt64)
  | int8 (value : Int8)
  | int16 (value : Int16)
  | int32 (value : Int32)
  | int64 (value : Int64)
  | float (bits : UInt32)
  | double (bits : UInt64)
  | string (value : Bytes)
  | binary (data : Bytes)
  | raw (data : Bytes)
  | dataType (type : DataType)
  | operationType (type : OperationType)
  | changefeedEvent (event : ChangefeedEvent)

/-- What `BinaryDeserializer` has a `Read` for. -/
inductive Kind where
  | uint8 | uint16 | uint32 | uint64 | int8 | int16 | int32 | int64 | float | double | string | binary
  | raw (size : Nat)
  | dataType | operationType | changefeedEvent
deriving DecidableEq

def writeUint16 (value : UInt16) : Bytes := putBE 2 value.toNat

def writeInt8 (value : Int8) : Bytes := writeUint8 value.toUInt8

def writeInt16 (value : Int16) : Bytes := writeUint16 value.toUInt16

def writeInt32 (value : Int32) : Bytes := writeUint32 value.toUInt32

def writeFloat (bits : UInt32) : Bytes := writeUint32 bits

def writeBinary (data : Bytes) : Bytes := writeUint32 (UInt32.ofNat data.length) ++ data

def readUint16 : Decoding UInt16 := (fun bs => UInt16.ofNat (getBE bs)) <$> take 2 insufficient

def readInt8 : Decoding Int8 := UInt8.toInt8 <$> readUint8

def readInt16 : Decoding Int16 := UInt16.toInt16 <$> readUint16

def readInt32 : Decoding Int32 := UInt32.toInt32 <$> readUint32

def readFloat : Decoding UInt32 := readUint32

def readBinary : Decoding Bytes := do
  let length ← readUint32
  take length.toNat insufficient

namespace Item

def write : Item → Bytes
  | uint8 value => writeUint8 value
  | uint16 value => writeUint16 value
  | uint32 value => writeUint32 value
  | uint64 value => writeUint64 value
  | int8 value => writeInt8 value
  | int16 value => writeInt16 value
  | int32 value => writeInt32 value
  | int64 value => writeInt64 value
  | float bits => writeFloat bits
  | double bits => writeDouble bits
  | string value => writeString value
  | binary data => writeBinary data
  | raw data => data
  | dataType type => writeDataType type
  | operationType type => writeOperationType type
  | changefeedEvent event => writeChangefeedEvent event.table event.operation event.key event.data

def kind : Item → Kind
  | uint8 _ => .uint8
  | uint16 _ => .uint16
  | uint32 _ => .uint32
  | uint64 _ => .uint64
  | int8 _ => .int8
  | int16 _ => .int16
  | int32 _ => .int32
  | int64 _ => .int64
  | float _ => .float
  | double _ => .double
  | string _ => .string
  | binary _ => .binary
  | raw data => .raw data.length
  | dataType _ => .dataType
  | operationType _ => .operationType
  | changefeedEvent _ => .changefeedEvent

/-- Its lengths, and the count of its fields, can be written. -/
def Fits : Item → Prop
  | string value => value.length < 2 ^ 32
  | binary data => data.length < 2 ^ 32
  | changefeedEvent event => StringsFit event.table event.key event.data ∧ event.data.size < 2 ^ 32
  | _ => True

end Item

def Kind.read : Kind → Decoding Item
  | .uint8 => Item.uint8 <$> readUint8
  | .uint16 => Item.uint16 <$> readUint16
  | .uint32 => Item.uint32 <$> readUint32
  | .uint64 => Item.uint64 <$> readUint64
  | .int8 => Item.int8 <$> readInt8
  | .int16 => Item.int16 <$> readInt16
  | .int32 => Item.int32 <$> readInt32
  | .int64 => Item.int64 <$> readInt64
  | .float => Item.float <$> readFloat
  | .double => Item.double <$> readDouble
  | .string => Item.string <$> readString
  | .binary => Item.binary <$> readBinary
  | .raw size => Item.raw <$> take size insufficient
  | .dataType => Item.dataType <$> readDataType
  | .operationType => Item.operationType <$> readOperationType
  | .changefeedEvent => Item.changefeedEvent <$> readChangefeedEvent

def readItems : List Kind → Decoding (List Item)
  | [] => pure []
  | kind :: kinds => do
    let item ← kind.read
    let items ← readItems kinds
    return item :: items

theorem decodes_writeUint16 (value : UInt16) : Decodes readUint16 (writeUint16 value) value := by
  have h := (decodes_integer 2 value.toNat value.toNat_lt insufficient).map (f := UInt16.ofNat)
  rwa [← comp_map, UInt16.ofNat_toNat] at h

theorem decodes_writeBinary {data : Bytes} (h : data.length < 2 ^ 32) : Decodes readBinary (writeBinary data) data := by
  refine (decodes_writeUint32 _).bind ?_
  rw [toNat_length h]
  exact decodes_take data insufficient

theorem Item.decodes_write {item : Item} (h : item.Fits) : Decodes item.kind.read item.write item := by
  cases item with
  | uint8 value => exact (decodes_writeUint8 value).map
  | uint16 value => exact (decodes_writeUint16 value).map
  | uint32 value | float value => exact (decodes_writeUint32 value).map
  | uint64 value | double value => exact (decodes_writeUint64 value).map
  | int64 value => exact (decodes_writeInt64 value).map
  | string value => exact (decodes_writeString h).map
  | binary data => exact (decodes_writeBinary h).map
  | raw data => exact (decodes_take data insufficient).map
  | dataType type => exact (decodes_writeDataType type).map
  | operationType type => exact (decodes_writeOperationType type).map
  | changefeedEvent event => exact (decodes_writeChangefeedEvent event.operation h.1 h.2).map
  | int8 value =>
    have hvalue := ((decodes_writeUint8 value.toUInt8).map (f := UInt8.toInt8)).map (f := Item.int8)
    rwa [Int8.toInt8_toUInt8] at hvalue
  | int16 value =>
    have hvalue := ((decodes_writeUint16 value.toUInt16).map (f := UInt16.toInt16)).map (f := Item.int16)
    rwa [Int16.toInt16_toUInt16] at hvalue
  | int32 value =>
    have hvalue := ((decodes_writeUint32 value.toUInt32).map (f := UInt32.toInt32)).map (f := Item.int32)
    rwa [Int32.toInt32_toUInt32] at hvalue

theorem decodes_writeItems (items : List Item) (h : ∀ item ∈ items, item.Fits) :
    Decodes (readItems (items.map Item.kind)) (items.flatMap Item.write) items := by
  induction items with
  | nil => exact decodes_pure []
  | cons item items ih =>
    have hrest := (ih fun i hi => h i (List.mem_cons_of_mem _ hi)).map (f := fun items => item :: items)
    exact (Item.decodes_write (h item (by simp))).bind hrest

/-- `ERROR`, `PING`, `PONG`, `WELCOME` of `MessageType`. -/
def welcomeType : UInt8 := 0x01

def pingType : UInt8 := 0x02

def pongType : UInt8 := 0x03

def errorType : UInt8 := 0x04

/-- A header, and the payload behind it. -/
def message (type : UInt8) (payload : Bytes) : Bytes := writeMessageHeader type (UInt32.ofNat payload.length) 0 ++ payload

/-- The messages that `ProtocolConverter` makes. -/
inductive Message where
  | welcome (clientId serverVersion : Bytes)
  | error (errorCode : UInt32) (errorMessage : Bytes)
  | ping (timestamp : UInt64)
  | pong (timestamp : UInt64)
  | changefeedEvent (subscriptionId : Bytes) (event : ChangefeedEvent)

namespace Message

def type : Message → UInt8
  | welcome _ _ => welcomeType
  | error _ _ => errorType
  | ping _ => pingType
  | pong _ => pongType
  | changefeedEvent _ _ => changefeedEventType

/-- The fields of its payload. -/
def items : Message → List Item
  | welcome clientId serverVersion =>
    [.string clientId, .string serverVersion, .uint32 3, .string (str "changefeed"), .string (str "wasm_subscriptions"),
      .string (str "binary_protocol")]
  | error errorCode errorMessage => [.uint32 errorCode, .string errorMessage]
  | ping timestamp => [.uint64 timestamp]
  | pong timestamp => [.uint64 timestamp]
  | changefeedEvent subscriptionId event => [.string subscriptionId, .changefeedEvent event]

def payload (m : Message) : Bytes := m.items.flatMap Item.write

/-- `CreateBinaryWelcomeMessage`, `CreateBinaryErrorMessage`, `CreateBinaryPingMessage`, `CreateBinaryPongMessage` (`:414-504`),
and what `ChangefeedEventToBinary` makes of an event. -/
def bytes (m : Message) : Bytes := message m.type m.payload

def header (m : Message) : BinaryMessageHeader :=
  { magic := (0xdb, 0x01), type := m.type, flags := 0, payloadSize := UInt32.ofNat m.payload.length }

/-- The header can count the payload. -/
def Fits (m : Message) : Prop := m.payload.length < 2 ^ 32

end Message

/-- `IsBinaryProtocol` (`:506`). -/
def isBinaryProtocol (data : Bytes) : Bool := 2 ≤ data.length && data[0]? = some 0xdb && data[1]? = some 0x01

/-- The fields of a payload, by the type in the header. -/
def payloadKinds (type : UInt8) : List Kind :=
  if type = welcomeType then [.string, .string, .uint32, .string, .string, .string]
  else if type = errorType then [.uint32, .string]
  else if type = pingType ∨ type = pongType then [.uint64]
  else if type = changefeedEventType then [.string, .changefeedEvent]
  else []

/-- `ReadMessageHeader`, and then the fields one by one. -/
def readMessage : Decoding (BinaryMessageHeader × List Item) := do
  let header ← readMessageHeader
  let items ← readItems (payloadKinds header.type)
  return (header, items)

def readMessages : Nat → Decoding (List (BinaryMessageHeader × List Item))
  | 0 => pure []
  | n + 1 => do
    let m ← readMessage
    let ms ← readMessages n
    return m :: ms

/-- No part of an event is longer than the event. -/
theorem fits_of_eventSize {table key : Bytes} {data : Fields} (h : eventSize table key data < 2 ^ 32) :
    StringsFit table key data ∧ data.size < 2 ^ 32 := by
  have hle := le_eventSize table key data
  have hsum : (data.toList.map fieldSize).sum ≤ eventSize table key data := Nat.le_add_left _ _
  refine ⟨⟨by omega, by omega, fun p hp => ?_⟩, ?_⟩
  · have hfield : fieldSize p ≤ (data.toList.map fieldSize).sum := List.le_sum_of_mem (List.mem_map_of_mem hp)
    have hname : p.1.length ≤ fieldSize p := by
      unfold fieldSize
      omega
    refine ⟨by omega, ?_⟩
    cases hvalue : p.2 with
    | string s =>
      have hvalueSize : fieldSize p = 4 + p.1.length + 1 + (4 + s.length) := by rw [fieldSize, hvalue]
      exact (by omega : s.length < 2 ^ 32)
    | _ => trivial
  · have hcount : (data.toList.map fieldSize).length ≤ (data.toList.map fieldSize).sum := by
      refine List.length_le_sum_of_one_le _ fun n hn => ?_
      obtain ⟨p, -, rfl⟩ := List.mem_map.1 hn
      unfold fieldSize
      omega
    rw [List.length_map, Std.ExtTreeMap.length_toList] at hcount
    omega

theorem Item.fits_of_length {item : Item} (h : item.write.length < 2 ^ 32) : item.Fits := by
  cases item with
  | string value =>
    have hlen : (Item.string value).write.length = 4 + value.length := length_writeString value
    exact (by omega : value.length < 2 ^ 32)
  | binary data =>
    have hlen : (Item.binary data).write.length = 4 + data.length := length_writeString data
    exact (by omega : data.length < 2 ^ 32)
  | changefeedEvent event =>
    have hlen : (Item.changefeedEvent event).write.length = eventSize event.table event.key event.data :=
      length_writeChangefeedEvent event.table event.operation event.key event.data
    exact fits_of_eventSize (hlen ▸ h)
  | _ => trivial

namespace Message

/-- What a payload can count, its fields can. -/
theorem Fits.items {m : Message} (h : m.Fits) : ∀ item ∈ m.items, item.Fits := by
  intro item hitem
  have hle : item.write.length ≤ m.payload.length := by
    obtain ⟨as, bs, hsplit⟩ := List.append_of_mem hitem
    rw [payload, hsplit, List.flatMap_append, List.flatMap_cons, List.length_append, List.length_append]
    omega
  exact Item.fits_of_length (Nat.lt_of_le_of_lt hle h)

theorem payloadKinds_type (m : Message) : payloadKinds m.type = m.items.map Item.kind := by
  cases m <;> rfl

theorem isBinaryProtocol_bytes (m : Message) : isBinaryProtocol m.bytes = true := rfl

end Message

theorem decodes_message {m : Message} (h : m.Fits) : Decodes readMessage m.bytes (m.header, m.items) := by
  have hitems := (decodes_writeItems m.items h.items).map (f := fun items => (m.header, items))
  rw [← m.payloadKinds_type] at hitems
  exact (decodes_writeMessageHeader m.type 0 _).bind hitems

theorem decodes_messages (ms : List Message) (h : ∀ m ∈ ms, m.Fits) :
    Decodes (readMessages ms.length) (ms.flatMap Message.bytes) (ms.map fun m => (m.header, m.items)) := by
  induction ms with
  | nil => exact decodes_pure []
  | cons m ms ih =>
    have hrest := (ih fun m' hm => h m' (List.mem_cons_of_mem _ hm)).map (f := fun ms => (m.header, m.items) :: ms)
    exact (decodes_message (h m (by simp))).bind hrest

/-- Where the header says that the next message begins. -/
theorem length_bytes {m : Message} (h : m.Fits) : m.bytes.length = 8 + m.header.payloadSize.toNat := by
  have hsize : m.header.payloadSize.toNat = m.payload.length := toNat_length h
  have hheader (size : UInt32) : (writeMessageHeader m.type size 0).length = 8 := by simp [writeMessageHeader, writeUint8, writeUint32]
  rw [hsize, Message.bytes, message, List.length_append, hheader]

/-- `BinaryToJsonChangefeedEvent` reads an event as `readMessage` does. -/
theorem readEventMessage_bytes {subscriptionId : Bytes} {event : ChangefeedEvent} (h : (Message.changefeedEvent subscriptionId event).Fits)
    (rest : Bytes) : ∃ b, readEventMessage ⟨(Message.changefeedEvent subscriptionId event).bytes ++ rest, 0⟩ = .ok ((subscriptionId, event), b) := by
  have hid : subscriptionId.length < 2 ^ 32 := h.items (.string subscriptionId) (by simp [Message.items])
  obtain ⟨hstrings, hsize⟩ : (Item.changefeedEvent event).Fits := h.items _ (by simp [Message.items])
  have hevent := decodes_eventMessage (UInt32.ofNat (Message.changefeedEvent subscriptionId event).payload.length)
    hid (decodes_writeChangefeedEvent event.operation hstrings hsize)
  have hrun := hevent.run [] rest
  rw [← List.append_nil (writeChangefeedEvent _ _ _ _)] at hrun
  exact ⟨_, hrun⟩

/-- The two magic bytes begin no UTF-8. -/
theorem not_binary_of_utf8 {b : Bytes} (h : Utf8 b) : isBinaryProtocol b = false := by
  rw [← Utf16.utf8_chars h]
  cases Utf16.chars b with
  | nil => rfl
  | cons c s =>
    have hfirst : Utf16.utf8 (c :: s) = Utf16.encodePoint c.toNat ++ Utf16.utf8 s := rfl
    have hbyte : ∀ n k : Nat, n < 256 → k < 256 → n ≠ k → UInt8.ofNat n ≠ UInt8.ofNat k := by
      intro n k hn hk hne heq
      have hnat := congrArg UInt8.toNat heq
      rw [UInt8.toNat_ofNat_of_lt' hn, UInt8.toNat_ofNat_of_lt' hk] at hnat
      exact hne hnat
    -- the first byte is the magic one in no character, or it is in front of a continuation byte
    have hmagic : ∀ (x : UInt8) (rest : Bytes), x ≠ 0xdb → isBinaryProtocol (x :: rest) = false := by
      intro x rest hx
      simp [isBinaryProtocol, hx]
    have hsecond : ∀ (x y : UInt8) (rest : Bytes), y ≠ 0x01 → isBinaryProtocol (x :: y :: rest) = false := by
      intro x y rest hy
      simp [isBinaryProtocol, hy]
    rw [hfirst, Utf16.encodePoint]
    split
    · exact hmagic _ _ (hbyte _ 0xdb (by omega) (by omega) (by omega))
    · split
      · exact hsecond _ _ _ (hbyte _ 0x01 (by omega) (by omega) (by omega))
      · split
        · exact hmagic _ _ (hbyte _ 0xdb (by omega) (by omega) (by omega))
        · exact hmagic _ _ (hbyte _ 0xdb (by omega) (by omega) (by omega))

/-- **Messages are told apart**, from one another and from text. Sent one after the other, they are read where they were put together,
each under its type and with the fields it was made of, and its header says where it ends; `BinaryToJsonChangefeedEvent` reads the same of
an event, and `ChangefeedEventToBinary` makes such a message. Each begins with the magic bytes, which no UTF-8 does. -/
theorem messages_cut (ms : List Message) (before rest : Bytes) (h : ∀ m ∈ ms, m.Fits) :
    readMessages ms.length ⟨before ++ (ms.flatMap Message.bytes ++ rest), before.length⟩ =
      .ok (ms.map fun m => (m.header, m.items),
        ⟨before ++ (ms.flatMap Message.bytes ++ rest), (before ++ ms.flatMap Message.bytes).length⟩) ∧
    (∀ m ∈ ms, m.header.type = m.type ∧ m.bytes.length = 8 + m.header.payloadSize.toNat ∧ isBinaryProtocol m.bytes = true) ∧
    (∀ subscriptionId event, .changefeedEvent subscriptionId event ∈ ms →
      ∃ b, readEventMessage ⟨(Message.changefeedEvent subscriptionId event).bytes ++ rest, 0⟩ = .ok ((subscriptionId, event), b)) ∧
    (∀ (J : JsonLib) (subscriptionId table operation key jsonData : Bytes) (json : Json), J.parse jsonData = some json →
      changefeedEventToBinary J subscriptionId table operation key jsonData = some (Message.changefeedEvent subscriptionId
        { table := table, operation := operationType operation, key := key, data := fieldsOf json }).bytes) ∧
    ∀ text, Utf8 text → isBinaryProtocol text = false := by
  refine ⟨(decodes_messages ms h).run before rest, fun m hm => ⟨rfl, length_bytes (h m hm), m.isBinaryProtocol_bytes⟩,
    fun subscriptionId event hm => readEventMessage_bytes (h _ hm) rest, fun J subscriptionId table operation key jsonData json hparse => ?_,
    fun _ => not_binary_of_utf8⟩
  simp [changefeedEventToBinary, hparse, Message.bytes, message, Message.payload, Message.items, Message.type, Item.write]

/-- A ping, an event and an error. -/
theorem messages_cut_three : ∃ bytes : Bytes,
    readMessages 3 ⟨bytes, 0⟩ = .ok ([((Message.ping 5).header, [.uint64 5]),
        ((Message.changefeedEvent (str "s1") ⟨str "users", .insert, str "u1", oneField⟩).header,
          [.string (str "s1"), .changefeedEvent ⟨str "users", .insert, str "u1", oneField⟩]),
        ((Message.error 404 (str "no")).header, [.uint32 404, .string (str "no")])], ⟨bytes, bytes.length⟩) := by
  have hevent : (Message.changefeedEvent (str "s1") ⟨str "users", .insert, str "u1", oneField⟩).payload.length = 38 := by
    have hsize : eventSize (str "users") (str "u1") oneField = 32 := by
      rw [eventSize, toList_oneField]
      decide
    simp [Message.payload, Message.items, Item.write, length_writeChangefeedEvent, hsize]
    decide
  have h := (messages_cut [.ping 5, .changefeedEvent (str "s1") ⟨str "users", .insert, str "u1", oneField⟩, .error 404 (str "no")] [] [] (by
    intro m hm
    simp only [List.mem_cons, List.not_mem_nil, or_false] at hm
    obtain rfl | rfl | rfl := hm
    · exact (by decide : (Message.ping 5).payload.length < 2 ^ 32)
    · exact (by omega : (Message.changefeedEvent (str "s1") ⟨str "users", .insert, str "u1", oneField⟩).payload.length < 2 ^ 32)
    · exact (by decide : (Message.error 404 (str "no")).payload.length < 2 ^ 32))).1
  rw [List.nil_append, List.append_nil, List.nil_append] at h
  exact ⟨_, h⟩

end OriginDB.BinaryProtocol
