import Mathlib.Tactic.IntervalCases
import OriginDB.Lib.Pointer
import OriginDB.Storage.RowCodec
/-!
# Schemas in the binary codec, and what its decoders read (`src/storage/row_codec.cpp:35-237`)

A column's type is one byte, so it comes back when its code is one, as those of the nine enumerators are. The decoders
ask before every read: on any bytes they throw or return, and never look beyond the end. An encoding that is cut short
makes them throw.
-/
namespace OriginDB

open ByteCodec ByteCodec.Reader

/-! ## Schemas -/

/-- `static_cast<uint8_t>(col.type)`. -/
def DataType.toByte (t : DataType) : UInt8 := UInt8.ofNat (t.toInt % 256).toNat

/-- `static_cast<DataType>(r.U8())`. -/
def DataType.ofByte (b : UInt8) : DataType := .ofInt32 (Int32.ofNat b.toNat)

def encodeSchemaColumn (col : Column) : Bytes :=
  lenPrefixed col.name ++ [col.type.toByte, if col.nullable then 1 else 0, if col.isPrimaryKey then 1 else 0]

/-- `EncodeSchema` (row_codec.cpp:206). -/
def encodeSchema (schema : TableSchema) : Bytes :=
  lenPrefixed schema.name ++ (putLE 4 schema.primaryKey.length ++ (schema.primaryKey.flatMap lenPrefixed ++
    (putLE 4 schema.columns.length ++ schema.columns.flatMap encodeSchemaColumn)))

def readSchemaColumn : Reader Column := do
  let name ← lenBytes
  let type ← u8
  let nullable ← u8
  let primary ← u8
  return { name := name, type := .ofByte type, nullable := nullable ≠ 0, isPrimaryKey := primary ≠ 0 }

def readSchema : Reader TableSchema := do
  let name ← lenBytes
  let pkCount ← u32
  let primaryKey ← lenBytes.times pkCount
  let colCount ← u32
  let columns ← readSchemaColumn.times colCount
  return { name := name, columns := columns, primaryKey := primaryKey }

/-- `DecodeSchema` (row_codec.cpp:221); `none` is the exception, and bytes left over are ignored. -/
def decodeSchema (data : Bytes) : Option TableSchema := (readSchema data).map Prod.fst

/-- Every length and count the codec writes is below `2 ^ 32`. -/
structure TableSchema.Fits (schema : TableSchema) : Prop where
  name : schema.name.length < 2 ^ 32
  keys : schema.primaryKey.length < 2 ^ 32
  key : ∀ k ∈ schema.primaryKey, k.length < 2 ^ 32
  count : schema.columns.length < 2 ^ 32
  column : ∀ c ∈ schema.columns, c.name.length < 2 ^ 32

/-- The type's code is one byte, as an enumerator's is. -/
def DataType.OneByte (t : DataType) : Prop := 0 ≤ t.toInt ∧ t.toInt < 256

/-- What is left of a column: the low byte of its type. -/
def Column.stored (c : Column) : Column := { c with type := .ofByte c.type.toByte }

def TableSchema.stored (schema : TableSchema) : TableSchema := { schema with columns := schema.columns.map Column.stored }

theorem DataType.toInt_ofInt32 (code : Int32) : (DataType.ofInt32 code).toInt = code.toInt := by
  unfold DataType.ofInt32
  split
  · rfl
  · rename_i h
    obtain ⟨c, hc⟩ : ∃ c, code.toInt = c := ⟨_, rfl⟩
    rw [hc] at h ⊢
    have hlow : 0 ≤ c := by omega
    have hhigh : c ≤ 8 := by omega
    interval_cases c <;> rfl

theorem DataType.toInt_ofByte (b : UInt8) : (DataType.ofByte b).toInt = b.toNat := by
  have hb := b.toNat_lt
  rw [DataType.ofByte, DataType.toInt_ofInt32, Int32.toInt_ofNat_of_lt (by omega)]

theorem DataType.toInt_injective {t u : DataType} (h : t.toInt = u.toInt) : t = u := by
  have hback := congrArg (fun v => DataType.ofInt32 (Int32.ofInt v)) h
  simpa only [DataType.ofInt32_toInt] using hback

/-- **A type survives as a byte** exactly when it is one. -/
theorem DataType.ofByte_toByte_iff (t : DataType) : DataType.ofByte t.toByte = t ↔ t.OneByte := by
  have hback : (DataType.ofByte t.toByte).toInt = t.toInt % 256 := by
    have hnonneg : 0 ≤ t.toInt % 256 := by omega
    have hlt : t.toInt % 256 < 256 := by omega
    rw [DataType.toInt_ofByte, DataType.toByte, UInt8.toNat_ofNat_of_lt' (by simp only [UInt8.size]; omega)]
    omega
  constructor
  · intro h
    rw [h] at hback
    unfold DataType.OneByte
    omega
  · intro h
    apply DataType.toInt_injective
    rw [hback]
    exact Int.emod_eq_of_lt h.1 h.2

theorem Column.stored_eq_iff (c : Column) : c.stored = c ↔ c.type.OneByte := by
  obtain ⟨name, type, nullable, primary⟩ := c
  simp only [Column.stored, Column.mk.injEq, true_and, and_true]
  exact type.ofByte_toByte_iff

theorem TableSchema.stored_eq_iff (schema : TableSchema) : schema.stored = schema ↔ ∀ c ∈ schema.columns, c.type.OneByte := by
  obtain ⟨name, columns, keys⟩ := schema
  simp only [TableSchema.stored, TableSchema.mk.injEq, true_and, and_true]
  induction columns with
  | nil => simp
  | cons c columns ih => rw [List.map_cons, List.cons.injEq, Column.stored_eq_iff, ih, List.forall_mem_cons]

theorem reads_encodeSchemaColumn {c : Column} (h : c.name.length < 2 ^ 32) :
    Reads readSchemaColumn (encodeSchemaColumn c) c.stored := by
  obtain ⟨name, type, nullable, primary⟩ := c
  have hflags : Reads readSchemaColumn (lenPrefixed name ++ ([type.toByte] ++ ([if nullable then 1 else 0] ++
      ([if primary then 1 else 0] ++ []))))
      { name := name, type := .ofByte type.toByte, nullable := decide ((if nullable then (1 : UInt8) else 0) ≠ 0),
        isPrimaryKey := decide ((if primary then (1 : UInt8) else 0) ≠ 0) } :=
    (reads_lenBytes h).bind ((reads_u8 _).bind ((reads_u8 _).bind ((reads_u8 _).bind (Reads.pure _))))
  cases nullable <;> cases primary <;> exact hflags

theorem reads_encodeSchema {schema : TableSchema} (h : schema.Fits) :
    Reads readSchema (encodeSchema schema) schema.stored := by
  obtain ⟨name, columns, keys⟩ := schema
  have hkeys : Reads (lenBytes.times keys.length) (keys.flatMap lenPrefixed) keys :=
    Reads.times fun k hk => reads_lenBytes (h.key k hk)
  have hcolumns : Reads (readSchemaColumn.times columns.length) (columns.flatMap encodeSchemaColumn)
      (columns.map Column.stored) := by
    have hcolumn := h.column
    clear hkeys h
    induction columns with
    | nil => exact Reads.pure []
    | cons c columns ih =>
      have hrest : Reads (do let l ← readSchemaColumn.times columns.length; pure (c.stored :: l))
          (columns.flatMap encodeSchemaColumn ++ []) (c.stored :: columns.map Column.stored) :=
        (ih fun d hd => hcolumn d (List.mem_cons_of_mem c hd)).bind (Reads.pure _)
      rw [List.append_nil] at hrest
      exact (reads_encodeSchemaColumn (hcolumn c List.mem_cons_self)).bind
        (f := fun a => do let l ← readSchemaColumn.times columns.length; pure (a :: l)) hrest
  have hall : Reads readSchema (lenPrefixed name ++ (putLE 4 keys.length ++ (keys.flatMap lenPrefixed ++
      (putLE 4 columns.length ++ (columns.flatMap encodeSchemaColumn ++ [])))))
      { name := name, columns := columns.map Column.stored, primaryKey := keys } :=
    (reads_lenBytes h.name).bind ((reads_u32 h.keys).bind (hkeys.bind ((reads_u32 h.count).bind (hcolumns.bind (Reads.pure _)))))
  rw [List.append_nil] at hall
  exact hall

/-! ## The decoders with their pointers -/

/-- The `switch` of `DecodeValue` (row_codec.cpp:163-186). -/
def scanPayload (tag : UInt8) : Pointer Value :=
  match tag.toNat with
  | 0 => pure .null
  | 1 => (fun n => .int32 (UInt32.ofNat n).toInt32) <$> Pointer.u32
  | 2 => (fun n => .int64 (UInt64.ofNat n).toInt64) <$> Pointer.u64
  | 3 => (fun n => .float (UInt32.ofNat n)) <$> Pointer.u32
  | 4 => (fun n => .double (UInt64.ofNat n)) <$> Pointer.u64
  | 5 => .string <$> Pointer.lenBytes
  | 6 => .bytes <$> Pointer.lenBytes
  | 7 => (fun b => .bool (decide (b ≠ 0))) <$> Pointer.u8
  | 8 => (fun n => .timestamp (UInt64.ofNat n).toInt64) <$> Pointer.u64
  | _ => Pointer.fail

/-- `DecodeValue` (row_codec.cpp:161). -/
def scanValue : Pointer Value := do
  let tag ← Pointer.u8
  scanPayload tag

def scanColumns : Nat → Columns → Pointer Columns
  | 0, cols => pure cols
  | count + 1, cols => do
    let name ← Pointer.lenBytes
    let v ← scanValue
    scanColumns count (cols.insert name v)

/-- `DecodeRow` (row_codec.cpp:194). -/
def scanRow : Pointer Row := do
  let key ← Pointer.lenBytes
  let count ← Pointer.u32
  let cols ← scanColumns count ∅
  return { key := key, columns := cols }

def scanSchemaColumn : Pointer Column := do
  let name ← Pointer.lenBytes
  let type ← Pointer.u8
  let nullable ← Pointer.u8
  let primary ← Pointer.u8
  return { name := name, type := .ofByte type, nullable := nullable ≠ 0, isPrimaryKey := primary ≠ 0 }

/-- `DecodeSchema` (row_codec.cpp:221). -/
def scanSchema : Pointer TableSchema := do
  let name ← Pointer.lenBytes
  let pkCount ← Pointer.u32
  let primaryKey ← Pointer.lenBytes.times pkCount
  let colCount ← Pointer.u32
  let columns ← scanSchemaColumn.times colCount
  return { name := name, columns := columns, primaryKey := primaryKey }

theorem tracks_scanPayload (tag : UInt8) : Tracks (scanPayload tag) (decodePayload tag) := by
  unfold scanPayload decodePayload
  match tag.toNat with
  | 0 => exact Tracks.pure _
  | 1 => exact tracks_u32.map
  | 2 => exact tracks_u64.map
  | 3 => exact tracks_u32.map
  | 4 => exact tracks_u64.map
  | 5 => exact tracks_lenBytes.map
  | 6 => exact tracks_lenBytes.map
  | 7 => exact tracks_u8.map
  | 8 => exact tracks_u64.map
  | _ + 9 => exact Tracks.fail

theorem tracks_scanColumns (count : Nat) (cols : Columns) : Tracks (scanColumns count cols) (decodeColumns count cols) := by
  induction count generalizing cols with
  | zero => exact Tracks.pure cols
  | succ count ih =>
    exact tracks_lenBytes.bind fun name => (tracks_u8.bind tracks_scanPayload).bind fun v => ih (cols.insert name v)

theorem tracks_scanRow : Tracks scanRow readRow :=
  tracks_lenBytes.bind fun _ => tracks_u32.bind fun count => (tracks_scanColumns count ∅).bind fun _ => Tracks.pure _

theorem tracks_scanSchemaColumn : Tracks scanSchemaColumn readSchemaColumn :=
  tracks_lenBytes.bind fun _ => tracks_u8.bind fun _ => tracks_u8.bind fun _ => tracks_u8.bind fun _ => Tracks.pure _

theorem tracks_scanSchema : Tracks scanSchema readSchema :=
  tracks_lenBytes.bind fun _ => tracks_u32.bind fun pkCount => (tracks_lenBytes.times pkCount).bind fun _ =>
    tracks_u32.bind fun colCount => (tracks_scanSchemaColumn.times colCount).bind fun _ => Tracks.pure _

/-! ## Encodings cut short -/

theorem forward_decodePayload (tag : UInt8) : Forward (decodePayload tag) := by
  unfold decodePayload
  split
  · exact Forward.pure _
  · exact forward_u32.map
  · exact forward_u64.map
  · exact forward_u32.map
  · exact forward_u64.map
  · exact forward_lenBytes.map
  · exact forward_lenBytes.map
  · exact forward_u8.map
  · exact forward_u64.map
  · exact Forward.fail

theorem forward_decodeColumns (count : Nat) (cols : Columns) : Forward (decodeColumns count cols) := by
  induction count generalizing cols with
  | zero => exact Forward.pure cols
  | succ count ih =>
    exact forward_lenBytes.bind fun name => (forward_u8.bind forward_decodePayload).bind fun v => ih (cols.insert name v)

theorem forward_readRow : Forward readRow :=
  forward_lenBytes.bind fun _ => forward_u32.bind fun count => (forward_decodeColumns count ∅).bind fun _ => Forward.pure _

theorem forward_readSchemaColumn : Forward readSchemaColumn :=
  forward_lenBytes.bind fun _ => forward_u8.bind fun _ => forward_u8.bind fun _ => forward_u8.bind fun _ => Forward.pure _

theorem forward_readSchema : Forward readSchema :=
  forward_lenBytes.bind fun _ => forward_u32.bind fun pkCount => (forward_lenBytes.times pkCount).bind fun _ =>
    forward_u32.bind fun colCount => (forward_readSchemaColumn.times colCount).bind fun _ => Forward.pure _

/-! ## The codec -/

/-- **Rows and schemas come back** from their encodings, whatever follows these: a schema with the low byte of each of its types, and
as it was exactly when these are one byte each. Cut short, an encoding makes the decoder throw. The decoders stay within whatever they are given. -/
theorem codec_round_trips (H : HashOrder) (row : Row) (hrow : row.Fits) (schema : TableSchema) (hschema : schema.Fits)
    (rest data : Bytes) :
    (decodeRow (encodeRow H row ++ rest) = some { key := row.key, columns := row.columns } ∧
      ∀ n < (encodeRow H row).length, decodeRow ((encodeRow H row).take n) = none) ∧
    (decodeSchema (encodeSchema schema ++ rest) = some schema.stored ∧
      (decodeSchema (encodeSchema schema ++ rest) = some schema ↔ ∀ c ∈ schema.columns, c.type.OneByte) ∧
      ∀ n < (encodeSchema schema).length, decodeSchema ((encodeSchema schema).take n) = none) ∧
    (scanRow.decode data = Pointer.within (decodeRow data) ∧ scanRow.decode data ≠ .error .overrun) ∧
    scanSchema.decode data = Pointer.within (decodeSchema data) ∧ scanSchema.decode data ≠ .error .overrun := by
  have hreads := reads_encodeRow H hrow
  have hreadsSchema := reads_encodeSchema hschema
  have hstored : decodeSchema (encodeSchema schema ++ rest) = some schema.stored := by
    rw [decodeSchema, hreadsSchema rest]
    rfl
  refine ⟨⟨?_, ?_⟩, ⟨hstored, ?_, ?_⟩, ⟨tracks_scanRow.decode data, tracks_scanRow.ne_overrun data⟩,
    tracks_scanSchema.decode data, tracks_scanSchema.ne_overrun data⟩
  · rw [decodeRow, hreads rest]
    rfl
  · intro n hn
    rw [decodeRow, hreads.cut forward_readRow hn]
    rfl
  · rw [hstored, Option.some.injEq]
    exact schema.stored_eq_iff
  · intro n hn
    rw [decodeSchema, hreadsSchema.cut forward_readSchema hn]
    rfl

/-- A row of one string, and a schema of one primary key, with bytes behind them. -/
theorem codec_round_trips_one :
    let row : Row := { key := [107], columns := (∅ : Columns).insert [99] (.string [118]) }
    let schema : TableSchema := { name := [116], columns := [⟨[99], .string, true, false⟩], primaryKey := [[99]] }
    decodeRow (encodeRow .sorted row ++ [1, 2]) = some { key := [107], columns := (∅ : Columns).insert [99] (.string [118]) } ∧
      decodeSchema (encodeSchema schema ++ [1, 2]) = some schema := by
  intro row schema
  have hrow : row.Fits := by
    refine ⟨by decide, by decide, fun c v hc => ?_⟩
    have hget : row.columns[c]? = if compare [99] c = .eq then some (.string [118]) else none := by
      rw [Std.ExtTreeMap.getElem?_insert, Std.ExtTreeMap.getElem?_empty]
    rw [hget] at hc
    split at hc
    · rename_i heq
      cases hc
      rw [← Std.LawfulEqCmp.eq_of_compare heq]
      exact ⟨by decide, by show 1 < 2 ^ 32; decide⟩
    · cases hc
  have hschema : schema.Fits := ⟨by decide, by decide, by decide, by decide, by decide⟩
  obtain ⟨⟨hread, -⟩, ⟨-, hreadSchema, -⟩, -⟩ := codec_round_trips .sorted row hrow schema hschema [1, 2] []
  refine ⟨hread, hreadSchema.2 fun c hc => ?_⟩
  obtain rfl : c = ⟨[99], .string, true, false⟩ := by simpa [schema] using hc
  exact ⟨by decide, by decide⟩

/-- A name that is read is shorter than a `u32` can say. -/
theorem decodeSchema_name_lt {data : Bytes} {schema : TableSchema} (h : decodeSchema data = some schema) :
    schema.name.length < 2 ^ 32 := by
  obtain ⟨⟨read, rest⟩, hread, rfl⟩ := Option.map_eq_some_iff.1 h
  change readSchema.run data = _ at hread
  simp only [readSchema, StateT.run_bind, Option.bind_eq_bind, Option.bind_eq_some_iff] at hread
  obtain ⟨⟨name, mid⟩, hname, _, -, _, -, _, -, _, -, hdone⟩ := hread
  cases hdone
  exact (lenBytes_eq_some hname).1

/-- A type the enumeration has no name for, as a snapshot's `static_cast` may make one, loses all but its low byte; and a
name of 2³² bytes is read as none. -/
theorem schema_cut_to_fields :
    (∃ schema : TableSchema, schema.Fits ∧ decodeSchema (encodeSchema schema) ≠ some schema) ∧
    ∃ schema : TableSchema, schema.columns = [] ∧ decodeSchema (encodeSchema schema) ≠ some schema := by
  constructor
  · let schema : TableSchema :=
      { name := [116], columns := [{ name := [99], type := .other 256 (by decide) }], primaryKey := [] }
    have hfits : schema.Fits := ⟨by decide, by decide, by decide, by decide, by decide⟩
    refine ⟨schema, hfits, fun h => ?_⟩
    have hread := reads_encodeSchema hfits []
    rw [List.append_nil] at hread
    rw [decodeSchema, hread, Option.map_some, Option.some.injEq, schema.stored_eq_iff] at h
    have hbyte := h _ List.mem_cons_self
    exact absurd hbyte.2 (by decide)
  · refine ⟨{ name := List.replicate (2 ^ 32) 0, columns := [], primaryKey := [] }, rfl, fun h => ?_⟩
    have hlt := decodeSchema_name_lt h
    rw [List.length_replicate] at hlt
    exact Nat.lt_irrefl _ hlt

end OriginDB
