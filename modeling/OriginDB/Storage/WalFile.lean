import Mathlib.Tactic.IntervalCases
import OriginDB.Storage.RowCodec
/-!
# The write-ahead log file (`include/storage/wal.h`, `src/storage/wal_impl.cpp`)

The file is an 8-byte magic followed by records `[u32 length][record]`. `ReadAll` trusts the lengths
from the front: it returns the records it can read whole and stops at the first it cannot. So what
it makes of bytes appended behind a torn tail depends on that tail, and only a `WellFramed` file
takes an append without changing what the appended bytes mean (`readAll_append`).
-/
namespace OriginDB

open ByteCodec ByteCodec.Reader

/-! ## Records -/

/-- `WALEntryType` (wal.h:10); a byte read from the file may be none of the ten. -/
inductive WALEntryType where
  | createTable | dropTable | insert | update | delete
  | createIndex | dropIndex | beginTxn | commitTxn | rollbackTxn
  | other (code : UInt8) (unnamed : 10 ≤ code.toNat)
deriving DecidableEq

def WALEntryType.toByte : WALEntryType → UInt8
  | .createTable => 0 | .dropTable => 1 | .insert => 2 | .update => 3 | .delete => 4
  | .createIndex => 5 | .dropIndex => 6 | .beginTxn => 7 | .commitTxn => 8 | .rollbackTxn => 9
  | .other code _ => code

def WALEntryType.ofByte (b : UInt8) : WALEntryType :=
  if h : 10 ≤ b.toNat then .other b h
  else match b.toNat with
    | 0 => .createTable | 1 => .dropTable | 2 => .insert | 3 => .update | 4 => .delete
    | 5 => .createIndex | 6 => .dropIndex | 7 => .beginTxn | 8 => .commitTxn | _ => .rollbackTxn

theorem WALEntryType.ofByte_toByte (t : WALEntryType) : ofByte t.toByte = t := by
  cases t with
  | other code h => simp [toByte, ofByte, h]
  | _ => rfl

theorem WALEntryType.toByte_ofByte (b : UInt8) : (ofByte b).toByte = b := by
  unfold ofByte
  split
  · rfl
  · rename_i h
    have hb : b = UInt8.ofNat b.toNat := by simp
    generalize b.toNat = n at h hb
    subst hb
    have hn : n < 10 := by omega
    interval_cases n <;> rfl

/-- `WALEntry` (wal.h:23). -/
structure WALEntry where
  type : WALEntryType
  sequence : UInt64 := 0
  transactionId : UInt64 := 0
  timestamp : UInt64 := 0
  tableName : Bytes := []
  key : Bytes := []
  data : Bytes := []
deriving DecidableEq

/-- The record without its length, as `SerializeRecord` (wal_impl.cpp:363) builds it. -/
def recordBytes (e : WALEntry) : Bytes :=
  e.type.toByte :: (putLE 8 e.sequence.toNat ++ (putLE 8 e.transactionId.toNat ++ (putLE 8 e.timestamp.toNat ++
    (lenPrefixed e.tableName ++ (lenPrefixed e.key ++ lenPrefixed e.data)))))

def serializeRecord (e : WALEntry) : Bytes := lenPrefixed (recordBytes e)

def readRecord : Reader WALEntry := do
  let type ← u8
  let sequence ← u64
  let txn ← u64
  let timestamp ← u64
  let table ← lenBytes
  let key ← lenBytes
  let data ← lenBytes
  return ⟨.ofByte type, UInt64.ofNat sequence, UInt64.ofNat txn, UInt64.ofNat timestamp, table, key, data⟩

/-- `DeserializeRecord` (wal_impl.cpp:382); `none` is the exception, and bytes left over are ignored. -/
def deserializeRecord (rec : Bytes) : Option WALEntry := (readRecord rec).map Prod.fst

@[simp] theorem length_recordBytes (e : WALEntry) :
    (recordBytes e).length = 37 + e.tableName.length + e.key.length + e.data.length := by
  simp only [recordBytes, List.length_cons, List.length_append, length_putLE, length_lenPrefixed]
  omega

/-- A record `ReadAll` gives back: its length fits the `u32` and its sequence number is not zero. -/
structure WALEntry.Recorded (e : WALEntry) : Prop where
  fits : (recordBytes e).length < 2 ^ 32
  numbered : 0 < e.sequence

instance (e : WALEntry) : Decidable e.Recorded :=
  decidable_of_iff ((recordBytes e).length < 2 ^ 32 ∧ 0 < e.sequence) ⟨fun h => ⟨h.1, h.2⟩, fun h => ⟨h.1, h.2⟩⟩

theorem deserializeRecord_recordBytes {e : WALEntry} (h : (recordBytes e).length < 2 ^ 32) :
    deserializeRecord (recordBytes e) = some e := by
  rw [length_recordBytes] at h
  obtain ⟨type, seq, txn, ts, table, key, data⟩ := e
  simp only at h
  have hread : Reads readRecord ([type.toByte] ++ (putLE 8 seq.toNat ++ (putLE 8 txn.toNat ++ (putLE 8 ts.toNat ++
      (lenPrefixed table ++ (lenPrefixed key ++ (lenPrefixed data ++ [])))))))
      ⟨.ofByte type.toByte, UInt64.ofNat seq.toNat, UInt64.ofNat txn.toNat, UInt64.ofNat ts.toNat, table, key, data⟩ := by
    refine (reads_u8 _).bind ?_
    refine (reads_u64 seq.toNat_lt).bind ((reads_u64 txn.toNat_lt).bind ((reads_u64 ts.toNat_lt).bind ?_))
    refine (reads_lenBytes (by omega)).bind ((reads_lenBytes (by omega)).bind ((reads_lenBytes (by omega)).bind ?_))
    exact Reads.pure _
  simp only [WALEntryType.ofByte_toByte, UInt64.ofNat_toNat] at hread
  have hrest := hread []
  simp only [List.append_nil, List.singleton_append] at hrest
  rw [deserializeRecord, recordBytes, hrest]
  rfl

/-- A record has its 37 fixed bytes and what its strings take, and starts with its type. -/
theorem deserializeRecord_eq_some {rec : Bytes} {e : WALEntry} (h : deserializeRecord rec = some e) :
    37 + e.tableName.length + e.key.length + e.data.length ≤ rec.length ∧
      ∃ b bs, rec = b :: bs ∧ e.type = .ofByte b := by
  obtain ⟨⟨e', rest⟩, hr, rfl⟩ := Option.map_eq_some_iff.1 h
  cases rec with
  | nil => cases hr
  | cons b bs =>
    change readRecord.run (b :: bs) = _ at hr
    have hb : u8.run (b :: bs) = some (b, bs) := rfl
    simp only [readRecord, StateT.run_bind, hb, Option.bind_eq_bind, Option.bind_some, Option.bind_eq_some_iff] at hr
    obtain ⟨_, hseq, _, htxn, _, hts, _, htable, _, hkey, _, hdata, he⟩ := hr
    have h1 := u64_length hseq
    have h2 := u64_length htxn
    have h3 := u64_length hts
    have h4 := lenBytes_length htable
    have h5 := lenBytes_length hkey
    have h6 := lenBytes_length hdata
    cases he
    refine ⟨?_, b, bs, rfl, rfl⟩
    simp only [List.length_cons]
    omega

/-! ## `ReadAll` -/

/-- `kWalMagic` (wal_impl.cpp:25): `ORWAL` and a version. -/
def kWalMagic : Bytes := [0x4f, 0x52, 0x57, 0x41, 0x4c, 0x01, 0, 0]

/-- One turn of the record loop: a malformed record is skipped, as is one numbered zero (`:169-174`). -/
def keepRecord (rec : Bytes) : Option WALEntry :=
  match deserializeRecord rec with
  | some e => if 0 < e.sequence then some e else none
  | none => none

/-- The record loop (wal_impl.cpp:156-175). -/
def readRecords (s : Bytes) : List WALEntry := (frames s).1.filterMap keepRecord

/-- `ReadAll` (wal_impl.cpp:136) on the contents of `wal.log`. -/
def readAll (file : Bytes) : List WALEntry :=
  if file.take 8 = kWalMagic then readRecords (file.drop 8) else []

theorem keepRecord_eq_some {rec : Bytes} {e : WALEntry} (h : keepRecord rec = some e) :
    deserializeRecord rec = some e := by
  unfold keepRecord at h
  split at h
  · rename_i e' he
    split at h
    · cases h; exact he
    · cases h
  · cases h

theorem keepRecord_recordBytes {e : WALEntry} (h : e.Recorded) : keepRecord (recordBytes e) = some e := by
  simp [keepRecord, deserializeRecord_recordBytes h.fits, h.numbered]

/-- The bytes a list of entries takes in the file. -/
def recordsBytes (es : List WALEntry) : Bytes := es.flatMap serializeRecord

@[simp] theorem recordsBytes_nil : recordsBytes [] = [] := rfl

@[simp] theorem recordsBytes_append (es fs : List WALEntry) :
    recordsBytes (es ++ fs) = recordsBytes es ++ recordsBytes fs := List.flatMap_append

theorem recordsBytes_eq (es : List WALEntry) : recordsBytes es = (es.map recordBytes).flatMap lenPrefixed := by
  rw [List.flatMap_map]
  rfl

theorem filterMap_keepRecord {es : List WALEntry} (h : ∀ e ∈ es, e.Recorded) :
    (es.map recordBytes).filterMap keepRecord = es := by
  induction es with
  | nil => rfl
  | cons e es ih =>
    rw [List.map_cons, List.filterMap_cons_some (keepRecord_recordBytes (h e (by simp))),
      ih (fun x hx => h x (by simp [hx]))]

theorem fits_of_recorded {es : List WALEntry} (h : ∀ e ∈ es, e.Recorded) :
    ∀ p ∈ es.map recordBytes, p.length < 2 ^ 32 := by
  intro p hp
  obtain ⟨e, he, rfl⟩ := List.mem_map.1 hp
  exact (h e he).fits

theorem readRecords_append {es : List WALEntry} (h : ∀ e ∈ es, e.Recorded) (rest : Bytes) :
    readRecords (recordsBytes es ++ rest) = es ++ readRecords rest := by
  rw [readRecords, recordsBytes_eq, frames_flatMap _ (fits_of_recorded h), List.filterMap_append,
    filterMap_keepRecord h]
  rfl

theorem readRecords_recordsBytes {es : List WALEntry} (h : ∀ e ∈ es, e.Recorded) :
    readRecords (recordsBytes es) = es := by
  have hr := readRecords_append h []
  simpa [readRecords] using hr

/-- Of records that fit, those numbered zero are the ones not returned. -/
theorem filterMap_keepRecord_of_fits {es : List WALEntry} (h : ∀ e ∈ es, (recordBytes e).length < 2 ^ 32) :
    (es.map recordBytes).filterMap keepRecord = es.filter fun e => 0 < e.sequence := by
  induction es with
  | nil => rfl
  | cons e es ih =>
    have hk : keepRecord (recordBytes e) = if 0 < e.sequence then some e else none := by
      simp only [keepRecord, deserializeRecord_recordBytes (h e (by simp))]
    rw [List.map_cons, List.filterMap_cons, hk, ih fun x hx => h x (by simp [hx]), List.filter_cons]
    by_cases hs : 0 < e.sequence <;> simp [hs]

/-- How many of the entries lie entirely within the first `n` bytes of their records. -/
def wholeRecords (es : List WALEntry) (n : Nat) : Nat := wholeFrames (es.map recordBytes) n

/-- **A torn tail loses only the records it cuts.** -/
theorem readRecords_take {es : List WALEntry} (h : ∀ e ∈ es, e.Recorded) (n : Nat) :
    readRecords ((recordsBytes es).take n) = es.take (wholeRecords es n) := by
  rw [readRecords, recordsBytes_eq, frames_take _ (fits_of_recorded h), ← List.map_take,
    filterMap_keepRecord (fun e he => h e (List.mem_of_mem_take he))]
  rfl

theorem wholeRecords_cons (e : WALEntry) (es : List WALEntry) (n : Nat) : wholeRecords (e :: es) n =
    if (serializeRecord e).length ≤ n then wholeRecords es (n - (serializeRecord e).length) + 1 else 0 := by
  rw [serializeRecord, length_lenPrefixed]
  rfl

@[simp] theorem wholeRecords_zero (es : List WALEntry) : wholeRecords es 0 = 0 := by
  cases es with
  | nil => rfl
  | cons e es => rw [wholeRecords_cons, if_neg (by simp [serializeRecord])]

/-- A cut behind the first entries keeps them. -/
theorem wholeRecords_append {es fs : List WALEntry} {n : Nat} (h : (recordsBytes es).length ≤ n) :
    wholeRecords (es ++ fs) n = es.length + wholeRecords fs (n - (recordsBytes es).length) := by
  induction es generalizing n with
  | nil => simp
  | cons e es ih =>
    simp only [recordsBytes, List.flatMap_cons, List.length_append] at h ih
    rw [List.cons_append, wholeRecords_cons, if_pos (by omega), ih (by omega)]
    simp only [recordsBytes, List.flatMap_cons, List.length_append, List.length_cons, Nat.sub_sub]
    omega

/-- A cut within the first entries cuts one of them. -/
theorem wholeRecords_append_of_lt {es : List WALEntry} {n : Nat} (h : n < (recordsBytes es).length)
    (fs : List WALEntry) :
    wholeRecords (es ++ fs) n = wholeRecords es n ∧ wholeRecords es n < es.length := by
  induction es generalizing n with
  | nil => simp at h
  | cons e es ih =>
    simp only [recordsBytes, List.flatMap_cons, List.length_append] at h ih
    rw [List.cons_append, wholeRecords_cons, wholeRecords_cons]
    by_cases hle : (serializeRecord e).length ≤ n
    · obtain ⟨h1, h2⟩ := ih (n := n - (serializeRecord e).length) (by omega)
      rw [if_pos hle, if_pos hle, h1]
      exact ⟨rfl, by simpa using h2⟩
    · rw [if_neg hle, if_neg hle]
      exact ⟨rfl, by simp⟩

theorem wholeRecords_mono (es : List WALEntry) {m n : Nat} (h : m ≤ n) : wholeRecords es m ≤ wholeRecords es n := by
  induction es generalizing m n with
  | nil => exact Nat.le_refl 0
  | cons e es ih =>
    rw [wholeRecords_cons, wholeRecords_cons]
    by_cases hm : (serializeRecord e).length ≤ m
    · rw [if_pos hm, if_pos (by omega)]
      exact Nat.succ_le_succ (ih (by omega))
    · rw [if_neg hm]
      exact Nat.zero_le _

/-- Whatever follows the magic is records. -/
theorem readAll_magic (s : Bytes) : readAll (kWalMagic ++ s) = readRecords s := by
  have h8 : kWalMagic.length = 8 := rfl
  rw [readAll, List.take_left' h8, List.drop_left' h8, if_pos rfl]

@[simp] theorem readAll_nil : readAll [] = [] := rfl

/-- Fewer than the magic's eight bytes hold no entry. -/
theorem readAll_short {file : Bytes} (h : file.length < 8) : readAll file = [] := by
  have hne : file.take 8 ≠ kWalMagic := by
    intro he
    have hl := congrArg List.length he
    rw [List.length_take] at hl
    simp only [kWalMagic, List.length_cons, List.length_nil] at hl
    omega
  rw [readAll, if_neg hne]

/-- **Any prefix of a log** is read as the entries whose records lie entirely in it. -/
theorem readAll_of_within {es : List WALEntry} (h : ∀ e ∈ es, e.Recorded) {x : Bytes}
    (hx : x <+: kWalMagic ++ recordsBytes es) : readAll x = es.take (wholeRecords es (x.length - 8)) := by
  have h8 : kWalMagic.length = 8 := rfl
  by_cases hlen : x.length < 8
  · rw [readAll_short hlen, Nat.sub_eq_zero_of_le (by omega), wholeRecords_zero, List.take_zero]
  · have heq : x = kWalMagic ++ (recordsBytes es).take (x.length - 8) := by
      conv_lhs => rw [List.prefix_iff_eq_take.1 hx]
      rw [List.take_append, h8, List.take_of_length_le (by omega)]
    conv_lhs => rw [heq]
    rw [readAll_magic, readRecords_take h]

/-! ## Well-framed files -/

/-- The magic, then whole records to the last byte. -/
structure WellFramed (file : Bytes) : Prop where
  magic : file.take 8 = kWalMagic
  whole : (frames (file.drop 8)).2 = []

instance (file : Bytes) : Decidable (WellFramed file) :=
  decidable_of_iff (file.take 8 = kWalMagic ∧ (frames (file.drop 8)).2 = [])
    ⟨fun h => ⟨h.1, h.2⟩, fun h => ⟨h.1, h.2⟩⟩

theorem WellFramed.eq_magic_append {file : Bytes} (h : WellFramed file) : file = kWalMagic ++ file.drop 8 := by
  rw [← h.magic, List.take_append_drop]

theorem wellFramed_magic : WellFramed kWalMagic := by decide

/-- Bytes appended to a well-framed file are read as if they stood alone. -/
theorem readAll_append {file : Bytes} (h : WellFramed file) (x : Bytes) :
    readAll (file ++ x) = readAll file ++ readRecords x := by
  have hsplit : readRecords (file.drop 8 ++ x) = readRecords (file.drop 8) ++ readRecords x := by
    rw [readRecords, frames_append, h.whole, List.filterMap_append, List.nil_append]
    rfl
  rw [h.eq_magic_append, List.append_assoc, readAll_magic, readAll_magic, hsplit]

theorem readAll_append_fits {file : Bytes} (h : WellFramed file) {es : List WALEntry}
    (hes : ∀ e ∈ es, (recordBytes e).length < 2 ^ 32) :
    readAll (file ++ recordsBytes es) = readAll file ++ es.filter fun e => 0 < e.sequence := by
  have hf := frames_flatMap (es.map recordBytes) (fun p hp => by
    obtain ⟨e, he, rfl⟩ := List.mem_map.1 hp
    exact hes e he) []
  rw [readAll_append h, readRecords, recordsBytes_eq]
  rw [List.append_nil, frames_nil, List.append_nil] at hf
  rw [hf, filterMap_keepRecord_of_fits hes]

/-- What `ReadAll` returns came from a record with a `u32` length. -/
theorem length_of_mem_readAll {file : Bytes} {e : WALEntry} (h : e ∈ readAll file) :
    37 + e.tableName.length + e.key.length + e.data.length < 2 ^ 32 := by
  unfold readAll at h
  split at h
  · obtain ⟨p, hp, hk⟩ := List.mem_filterMap.1 h
    have hlt := (frames_spec _).2.1 p hp
    have hle := (deserializeRecord_eq_some (keepRecord_eq_some hk)).1
    omega
  · cases h

theorem WellFramed.append_records {file : Bytes} (h : WellFramed file) {es : List WALEntry}
    (hes : ∀ e ∈ es, (recordBytes e).length < 2 ^ 32) : WellFramed (file ++ recordsBytes es) := by
  have hlen : 8 ≤ file.length := by
    have hl := congrArg List.length h.magic
    rw [List.length_take] at hl
    simp only [kWalMagic, List.length_cons, List.length_nil] at hl
    omega
  have hfit : ∀ p ∈ es.map recordBytes, p.length < 2 ^ 32 := by
    intro p hp
    obtain ⟨e, he, rfl⟩ := List.mem_map.1 hp
    exact hes e he
  refine ⟨by rw [List.take_append_of_le_length hlen, h.magic], ?_⟩
  have hf := frames_flatMap (es.map recordBytes) hfit []
  rw [List.drop_append_of_le_length hlen, frames_append, h.whole, List.nil_append, recordsBytes_eq]
  rw [List.append_nil] at hf
  rw [hf]
  rfl

/-! ## What a torn tail does to the bytes behind it -/

/-- Fewer bytes than the smallest record takes hold no entry. -/
theorem readRecords_of_length_lt {s : Bytes} (h : s.length < 41) : readRecords s = [] := by
  refine List.filterMap_eq_nil_iff.2 fun p hp => ?_
  obtain ⟨hs, -, -⟩ := frames_spec s
  have hlen : (lenPrefixed p).length ≤ s.length := by
    have hsub : [p].Sublist (frames s).1 := List.singleton_sublist.2 hp
    have hle := (hsub.flatMap lenPrefixed).length_le
    rw [hs, List.length_append]
    simp only [List.flatMap_cons, List.flatMap_nil, List.append_nil] at hle
    omega
  rw [length_lenPrefixed] at hlen
  cases hk : keepRecord p with
  | none => rfl
  | some e =>
    have := (deserializeRecord_eq_some (keepRecord_eq_some hk)).1
    omega

/-- The smallest record there is. -/
def bareEntry (type : WALEntryType) (sequence timestamp : UInt64) : WALEntry :=
  { type := type, sequence := sequence, timestamp := timestamp }

theorem serializeRecord_bareEntry (type : WALEntryType) (seq ts : UInt64) :
    ∃ tl, serializeRecord (bareEntry type seq ts) = 37 :: 0 :: 0 :: 0 :: tl ∧ tl.length = 37 := by
  refine ⟨recordBytes (bareEntry type seq ts), ?_, by simp [bareEntry]⟩
  have hlen : (recordBytes (bareEntry type seq ts)).length = 37 := by simp [bareEntry]
  have hput : putLE 4 37 = [37, 0, 0, 0] := by decide
  rw [serializeRecord, lenPrefixed, hlen, hput]
  rfl

/-- A type whose byte is not the one a torn record already has in that place. -/
def otherType (b : Option UInt8) : WALEntryType := if b = some 1 then .delete else .dropTable

theorem otherType_ne_ofByte (b : UInt8) : otherType (some b) ≠ .ofByte b := by
  intro h
  have hb := congrArg WALEntryType.toByte h
  rw [WALEntryType.toByte_ofByte] at hb
  by_cases h1 : b = 1
  · subst h1; simp [otherType, WALEntryType.toByte] at hb
  · simp only [otherType, Option.some.injEq, h1, if_false, WALEntryType.toByte] at hb
    exact h1 hb.symm

/-- Behind a torn tail the byte at offset 4 is the tail's own, or one of the next length prefix. -/
theorem otherType_ne_behind {tail tl : Bytes} {b : UInt8} (hne : tail ≠ [])
    (hb : (tail ++ 37 :: 0 :: 0 :: 0 :: tl)[4]? = some b) : otherType tail[4]? ≠ .ofByte b := by
  rcases tail with _ | ⟨_, _ | ⟨_, _ | ⟨_, _ | ⟨_, _ | ⟨c, tail⟩⟩⟩⟩⟩
  · exact absurd rfl hne
  · simp at hb; subst hb; simp [otherType, WALEntryType.ofByte]
  · simp at hb; subst hb; simp [otherType, WALEntryType.ofByte]
  · simp at hb; subst hb; simp [otherType, WALEntryType.ofByte]
  · simp at hb; subst hb; simp [otherType, WALEntryType.ofByte]
  · simp at hb
    subst hb
    exact otherType_ne_ofByte c

/-- **Behind a torn tail a record is lost**: the tail's length prefix swallows its first bytes, and what
is left of it is too short for a record. -/
theorem torn_swallows {tail : Bytes} (hne : tail ≠ []) (hnone : lenBytes tail = none) (seq ts : UInt64) :
    bareEntry (otherType tail[4]?) seq ts ∉
      readRecords (tail ++ serializeRecord (bareEntry (otherType tail[4]?) seq ts)) := by
  obtain ⟨tl, hx, htl⟩ := serializeRecord_bareEntry (otherType tail[4]?) seq ts
  generalize hs : tail ++ serializeRecord (bareEntry (otherType tail[4]?) seq ts) = s
  have hlen : s.length = tail.length + 41 := by rw [← hs, hx]; simp [htl]
  cases hf : lenBytes s with
  | none =>
    have hnil : readRecords s = [] := by rw [readRecords, frames_of_none hf]; rfl
    rw [hnil]
    simp
  | some pr =>
    obtain ⟨p, rest⟩ := pr
    obtain ⟨hp, hsp⟩ := lenBytes_eq_some hf
    -- the frame read first reaches past the tail, or the tail would not have been torn
    have hlong : tail.length < 4 + p.length := by
      by_contra hle
      have htail : tail = lenPrefixed p ++ tail.drop (4 + p.length) := by
        have hpre : (lenPrefixed p ++ rest).take (4 + p.length) = s.take (4 + p.length) := by rw [← hsp]
        rw [← hs, List.take_left' (length_lenPrefixed p), List.take_append_of_le_length (by omega)] at hpre
        rw [hpre, List.take_append_drop]
      rw [htail, lenBytes_lenPrefixed hp] at hnone
      cases hnone
    have hrest : readRecords rest = [] := by
      refine readRecords_of_length_lt ?_
      have := lenBytes_length hf
      omega
    have hread : readRecords s = (keepRecord p).toList := by
      have hnil : (frames rest).1.filterMap keepRecord = [] := hrest
      rw [readRecords, frames_of_some hf]
      cases hk : keepRecord p with
      | none => rw [List.filterMap_cons_none hk, hnil]; rfl
      | some e => rw [List.filterMap_cons_some hk, hnil]; rfl
    rw [hread]
    cases hk : keepRecord p with
    | none => simp
    | some e =>
      obtain ⟨-, b, bs, rfl, htype⟩ := deserializeRecord_eq_some (keepRecord_eq_some hk)
      -- its type is the byte at offset 4, which is the tail's own or one of the new length prefix
      have hb : s[4]? = some b := by
        rw [hsp, List.getElem?_append_left (by simp), lenPrefixed, List.getElem?_append_right (by simp)]
        simp
      intro hmem
      have he : bareEntry (otherType tail[4]?) seq ts = e := by simpa using hmem
      rw [← he] at htype
      rw [← hs, hx] at hb
      exact otherType_ne_behind hne hb htype

end OriginDB
