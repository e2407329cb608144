import Mathlib.Data.List.Flatten
import OriginDB.Storage.Table
/-!
# The binary row codec (`src/storage/row_codec.cpp`)

Fixed-width values are copied in host order, which is little-endian on every supported target.
Lengths and counts are `static_cast` to `u32`, so `putLE 4` keeps them modulo `2 ^ 32`; a string or a
column count of `2 ^ 32` or more is the one thing that does not come back (`decodeRow_encodeRow`).
-/
namespace OriginDB

open ByteCodec ByteCodec.Reader

/-! ## Values -/

/-- `EncodeValue` (row_codec.cpp:112). -/
def encodeValue : Value → Bytes
  | .null => [0]
  | .int32 v => 1 :: putLE 4 v.toUInt32.toNat
  | .int64 v => 2 :: putLE 8 v.toUInt64.toNat
  | .float bits => 3 :: putLE 4 bits.toNat
  | .double bits => 4 :: putLE 8 bits.toNat
  | .string s => 5 :: lenPrefixed s
  | .bytes b => 6 :: lenPrefixed b
  | .bool b => [7, if b then 1 else 0]
  | .timestamp ns => 8 :: putLE 8 ns.toUInt64.toNat

/-- The `switch` of `DecodeValue` (row_codec.cpp:163-186); an unknown tag throws. -/
def decodePayload (tag : UInt8) : Reader Value :=
  match tag.toNat with
  | 0 => pure .null
  | 1 => (fun n => .int32 (UInt32.ofNat n).toInt32) <$> u32
  | 2 => (fun n => .int64 (UInt64.ofNat n).toInt64) <$> u64
  | 3 => (fun n => .float (UInt32.ofNat n)) <$> u32
  | 4 => (fun n => .double (UInt64.ofNat n)) <$> u64
  | 5 => .string <$> lenBytes
  | 6 => .bytes <$> lenBytes
  | 7 => (fun b => .bool (decide (b ≠ 0))) <$> u8
  | 8 => (fun n => .timestamp (UInt64.ofNat n).toInt64) <$> u64
  | _ => failure

/-- `DecodeValue` (row_codec.cpp:161). -/
def decodeValue : Reader Value := do
  let tag ← u8
  decodePayload tag

/-- The strings inside a value are short enough for a `u32` length. -/
def Value.Fits : Value → Prop
  | .string s | .bytes s => s.length < 2 ^ 32
  | _ => True

theorem reads_decodeValue {tag : UInt8} {bs : Bytes} {v : Value} (h : Reads (decodePayload tag) bs v) :
    Reads decodeValue (tag :: bs) v :=
  (reads_u8 tag).bind h

theorem reads_encodeValue {v : Value} (h : v.Fits) : Reads decodeValue (encodeValue v) v := by
  cases v with
  | null => exact reads_decodeValue (Reads.pure _)
  | int32 v =>
    have hr := (reads_u32 v.toUInt32.toNat_lt).map (f := fun n => Value.int32 (UInt32.ofNat n).toInt32)
    rw [UInt32.ofNat_toNat, Int32.toInt32_toUInt32] at hr
    exact reads_decodeValue hr
  | int64 v =>
    have hr := (reads_u64 v.toUInt64.toNat_lt).map (f := fun n => Value.int64 (UInt64.ofNat n).toInt64)
    rw [UInt64.ofNat_toNat, Int64.toInt64_toUInt64] at hr
    exact reads_decodeValue hr
  | float bits =>
    have hr := (reads_u32 bits.toNat_lt).map (f := fun n => Value.float (UInt32.ofNat n))
    rw [UInt32.ofNat_toNat] at hr
    exact reads_decodeValue hr
  | double bits =>
    have hr := (reads_u64 bits.toNat_lt).map (f := fun n => Value.double (UInt64.ofNat n))
    rw [UInt64.ofNat_toNat] at hr
    exact reads_decodeValue hr
  | string s => exact reads_decodeValue (reads_lenBytes h).map
  | bytes b => exact reads_decodeValue (reads_lenBytes h).map
  | bool b =>
    have hr := (reads_u8 (if b then 1 else 0)).map (f := fun n => Value.bool (decide (n ≠ 0)))
    cases b
    · exact reads_decodeValue hr
    · exact reads_decodeValue hr
  | timestamp ns =>
    have hr := (reads_u64 ns.toUInt64.toNat_lt).map (f := fun n => Value.timestamp (UInt64.ofNat n).toInt64)
    rw [UInt64.ofNat_toNat, Int64.toInt64_toUInt64] at hr
    exact reads_decodeValue hr

/-! ## Rows -/

def encodeColumn (c : Bytes × Value) : Bytes := lenPrefixed c.1 ++ encodeValue c.2

/-- `EncodeRow` (row_codec.cpp:188), the columns in the map's iteration order. -/
def encodeRow (H : HashOrder) (row : Row) : Bytes :=
  lenPrefixed row.key ++ putLE 4 row.columns.size ++ (H.list row.columns).flatMap encodeColumn

/-- The column loop of `DecodeRow`: `row.columns[name] = DecodeValue(r)`, `count` times. -/
def decodeColumns : Nat → Columns → Reader Columns
  | 0, cols => pure cols
  | count + 1, cols => do
    let name ← lenBytes
    let v ← decodeValue
    decodeColumns count (cols.insert name v)

/-- `DecodeRow` (row_codec.cpp:201) as a reader; what follows the last column is ignored. -/
def readRow : Reader Row := do
  let key ← lenBytes
  let count ← u32
  let cols ← decodeColumns count ∅
  return { key := key, columns := cols }

/-- `DecodeRow`; `none` is `throw std::runtime_error`. -/
def decodeRow (data : Bytes) : Option Row := (readRow data).map Prod.fst

/-- Every length and count the codec writes is below `2 ^ 32`. -/
structure Row.Fits (row : Row) : Prop where
  key : row.key.length < 2 ^ 32
  count : row.columns.size < 2 ^ 32
  column : ∀ (c : Bytes) (v : Value), row.columns[c]? = some v → c.length < 2 ^ 32 ∧ v.Fits

theorem reads_decodeColumns (l : List (Bytes × Value)) (h : ∀ p ∈ l, p.1.length < 2 ^ 32 ∧ p.2.Fits)
    (cols : Columns) : Reads (decodeColumns l.length cols) (l.flatMap encodeColumn) (OrdMap.insertAll cols l) := by
  induction l generalizing cols with
  | nil => exact Reads.pure cols
  | cons p l ih =>
    obtain ⟨hn, hv⟩ := h p (by simp)
    rw [List.flatMap_cons, encodeColumn, List.append_assoc, OrdMap.insertAll_cons]
    exact (reads_lenBytes hn).bind ((reads_encodeValue hv).bind (ih (fun q hq => h q (by simp [hq])) _))

theorem mem_list_iff (H : HashOrder) {V : Type} (m : StrMap V) {k : Bytes} {v : V} :
    (k, v) ∈ H.list m ↔ m[k]? = some v := by
  rw [(H.perm m).mem_iff, Std.ExtTreeMap.mem_toList_iff_getElem?_eq_some]

/-- The row an encoding decodes to: the same key and columns, version and timestamp reset. -/
def Row.stored (row : Row) : Row := { key := row.key, columns := row.columns }

theorem reads_encodeRow (H : HashOrder) {row : Row} (h : row.Fits) : Reads readRow (encodeRow H row) row.stored := by
  have hlen : (H.list row.columns).length = row.columns.size := by
    rw [(H.perm row.columns).length_eq, Std.ExtTreeMap.length_toList]
  have hcols := reads_decodeColumns (H.list row.columns)
    (fun p hp => h.column p.1 p.2 ((mem_list_iff H row.columns).1 hp)) ∅
  rw [hlen, OrdMap.insertAll_perm (H.perm row.columns)] at hcols
  have hrow : Reads readRow (lenPrefixed row.key ++ (putLE 4 row.columns.size ++
      ((H.list row.columns).flatMap encodeColumn ++ []))) row.stored :=
    (reads_lenBytes h.key).bind ((reads_u32 h.count).bind (hcols.bind (Reads.pure _)))
  rw [List.append_nil] at hrow
  rw [encodeRow, List.append_assoc]
  exact hrow

/-- **The codec loses neither a key nor a column**, whatever the iteration order. -/
theorem decodeRow_encodeRow (H : HashOrder) {row : Row} (h : row.Fits) :
    decodeRow (encodeRow H row) = some row.stored := by
  have hread := reads_encodeRow H h []
  rw [List.append_nil] at hread
  rw [decodeRow, hread]
  rfl

/-- The encoding is at least as long as everything it contains, so a short encoding fits. -/
theorem length_encodeColumn_le (H : HashOrder) {row : Row} {c : Bytes} {v : Value} (h : row.columns[c]? = some v) :
    (encodeColumn (c, v)).length ≤ ((H.list row.columns).flatMap encodeColumn).length := by
  have hsub : [(c, v)].Sublist (H.list row.columns) := List.singleton_sublist.2 ((mem_list_iff H _).2 h)
  simpa using (hsub.flatMap encodeColumn).length_le

theorem size_le_length_encode (H : HashOrder) (row : Row) :
    row.columns.size ≤ ((H.list row.columns).flatMap encodeColumn).length := by
  have hlen : (H.list row.columns).length = row.columns.size := by
    rw [(H.perm row.columns).length_eq, Std.ExtTreeMap.length_toList]
  have hone : ∀ l : List (Bytes × Value), l.length ≤ (l.flatMap encodeColumn).length := by
    intro l
    induction l with
    | nil => simp
    | cons p l ih =>
      simp only [List.length_cons, List.flatMap_cons, List.length_append, encodeColumn, length_lenPrefixed]
      omega
  rw [← hlen]
  exact hone _

theorem length_value_le (v : Value) : v.Fits ∨ 2 ^ 32 ≤ (encodeValue v).length := by
  cases v with
  | string s | bytes s =>
    simp only [Value.Fits, encodeValue, List.length_cons, length_lenPrefixed]
    omega
  | _ => exact Or.inl trivial

theorem Row.fits_of_length (H : HashOrder) {row : Row} (h : (encodeRow H row).length < 2 ^ 32) : row.Fits := by
  simp only [encodeRow, List.length_append, length_lenPrefixed, length_putLE] at h
  refine ⟨by omega, by have := size_le_length_encode H row; omega, fun c v hc => ?_⟩
  have hcol := length_encodeColumn_le H hc
  simp only [encodeColumn, List.length_append, length_lenPrefixed] at hcol
  refine ⟨by omega, ?_⟩
  rcases length_value_le v with hv | hv
  · exact hv
  · omega

end OriginDB
