import OriginDB.Lib.Pointer
import OriginDB.Storage.WalFile
/-!
# Torn tails (`src/storage/wal_impl.cpp:136-178`, `:382-430`)

A crash leaves some first part of what was written. `ReadAll` makes of it the entries whose records lie within that
part. `DeserializeRecord` asks before every read, so on whatever bytes it is given it stays within the record.
-/
namespace OriginDB

open ByteCodec

/-! ## The record's decoder with its pointer -/

/-- `DeserializeRecord` (wal_impl.cpp:382) as it moves its pointer. -/
def scanRecord : Pointer WALEntry := do
  let type ← Pointer.u8
  let sequence ← Pointer.u64
  let txn ← Pointer.u64
  let timestamp ← Pointer.u64
  let table ← Pointer.lenBytes
  let key ← Pointer.lenBytes
  let data ← Pointer.lenBytes
  return ⟨.ofByte type, UInt64.ofNat sequence, UInt64.ofNat txn, UInt64.ofNat timestamp, table, key, data⟩

theorem tracks_scanRecord : Tracks scanRecord readRecord := by
  refine tracks_u8.bind fun type => ?_
  refine tracks_u64.bind fun sequence => tracks_u64.bind fun txn => tracks_u64.bind fun timestamp => ?_
  refine tracks_lenBytes.bind fun table => tracks_lenBytes.bind fun key => tracks_lenBytes.bind fun data => ?_
  exact Tracks.pure _

/-! ## Which entries a part of the file holds -/

/-- Bytes the first `k` entries take in the file, the magic included. -/
def sizeUpTo (es : List WALEntry) (k : Nat) : Nat := (kWalMagic ++ recordsBytes (es.take k)).length

theorem sizeUpTo_eq (es : List WALEntry) (k : Nat) : sizeUpTo es k = 8 + (recordsBytes (es.take k)).length := by
  rw [sizeUpTo, List.length_append]
  rfl

theorem wholeRecords_le (es : List WALEntry) (n : Nat) : wholeRecords es n ≤ es.length := by
  induction es generalizing n with
  | nil => exact Nat.le_refl 0
  | cons e es ih =>
    rw [wholeRecords_cons]
    split
    · exact Nat.succ_le_succ (ih _)
    · exact Nat.zero_le _

/-- The entries within the first `n` bytes of records are those whose bytes end there or before. -/
theorem le_wholeRecords_iff {es : List WALEntry} {k : Nat} (hk : k ≤ es.length) (n : Nat) :
    k ≤ wholeRecords es n ↔ (recordsBytes (es.take k)).length ≤ n := by
  induction es generalizing k n with
  | nil =>
    obtain rfl : k = 0 := Nat.le_zero.1 hk
    simp
  | cons e es ih =>
    cases k with
    | zero => simp
    | succ k =>
      have hsize : (recordsBytes ((e :: es).take (k + 1))).length =
          (serializeRecord e).length + (recordsBytes (es.take k)).length := by
        rw [List.take_succ_cons, recordsBytes, List.flatMap_cons, List.length_append]
        rfl
      rw [wholeRecords_cons, hsize]
      by_cases hfirst : (serializeRecord e).length ≤ n
      · have hrest := ih (Nat.le_of_succ_le_succ hk) (n - (serializeRecord e).length)
        rw [if_pos hfirst]
        omega
      · rw [if_neg hfirst]
        omega

/-- **A torn tail loses only the record it tears.** Of the first `n` bytes of a log, `ReadAll` makes the first entries,
and as many of them as end within those bytes. The decoder of a record stays within it, whatever its bytes are. -/
theorem torn_tail_loses_torn (es : List WALEntry) (h : ∀ e ∈ es, e.Recorded) (n : Nat) (rec : Bytes) :
    (∃ count ≤ es.length, readAll ((kWalMagic ++ recordsBytes es).take n) = es.take count ∧
      (n < 8 → count = 0) ∧ ∀ k ≤ es.length, 8 ≤ n → (k ≤ count ↔ sizeUpTo es k ≤ n)) ∧
    scanRecord.decode rec ≠ .error .overrun ∧
    scanRecord.decode rec = Pointer.within (deserializeRecord rec) := by
  refine ⟨⟨wholeRecords es (n - 8), wholeRecords_le es _, ?_, ?_, ?_⟩, tracks_scanRecord.ne_overrun rec,
    tracks_scanRecord.decode rec⟩
  · rw [readAll_of_within h (List.take_prefix n _), List.length_take, List.length_append]
    have h8 : kWalMagic.length = 8 := rfl
    have hcut : min n (kWalMagic.length + (recordsBytes es).length) - 8 = min (n - 8) (recordsBytes es).length := by omega
    rw [hcut]
    by_cases hn : n - 8 ≤ (recordsBytes es).length
    · rw [Nat.min_eq_left hn]
    · -- everything is there, and a longer part holds no more
      have hall : ∀ m, (recordsBytes es).length ≤ m → wholeRecords es m = es.length := by
        intro m hm
        have hle := (le_wholeRecords_iff (Nat.le_refl es.length) m).2 (by rwa [List.take_length])
        exact Nat.le_antisymm (wholeRecords_le es m) hle
      rw [Nat.min_eq_right (by omega), hall _ (Nat.le_refl _), hall _ (by omega)]
  · intro hn
    rw [Nat.sub_eq_zero_of_le (by omega), wholeRecords_zero]
  · intro k hk hn
    rw [le_wholeRecords_iff hk, sizeUpTo_eq]
    omega

/-- Two inserts, the second of them cut off within its key. -/
theorem torn_tail_loses_torn_second :
    let e : WALEntry := { type := .insert, sequence := 1, tableName := [116], key := [97], data := [1, 2] }
    let f : WALEntry := { type := .insert, sequence := 2, tableName := [116], key := [98], data := [3] }
    (∀ g ∈ [e, f], g.Recorded) ∧ sizeUpTo [e, f] 1 ≤ 85 ∧ 85 < sizeUpTo [e, f] 2 ∧
      readAll ((kWalMagic ++ recordsBytes [e, f]).take 85) = [e] := by
  intro e f
  have hrec : ∀ g ∈ [e, f], g.Recorded := by decide
  obtain ⟨⟨count, hcount, hread, -, hall⟩, -⟩ := torn_tail_loses_torn [e, f] hrec 85 []
  have hone : 1 ≤ count := (hall 1 (by decide) (by decide)).2 (by decide)
  have htwo : ¬ 2 ≤ count := fun h2 => absurd ((hall 2 (by decide) (by decide)).1 h2) (by decide)
  obtain rfl : count = 1 := by omega
  exact ⟨hrec, by decide, by decide, hread⟩

end OriginDB
