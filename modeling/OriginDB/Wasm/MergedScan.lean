import OriginDB.Lib.Layers
import OriginDB.Storage.JsonCache
import OriginDB.Wasm.StoredValues
/-!
# What a scan answers (`src/wasm/host_functions.cpp:250-326`)

`mergedView` is what the scan is of: the committed rows under the writes and tombstones of the call, with the keys that start
with the prefix. The scan reads a range of committed rows that ends at `rangeEnd`, that key included, drops what does not
start with the prefix, and goes over all that is staged.

`scan_answers_merged_view` needs text that can be printed: the scan throws on a row of its range that cannot be.
-/
namespace OriginDB

open JsonDoc ByteCodec Lists Memo OrdMap Std

namespace Wasm

section
variable (s : Store) (call : HostCallContext) (table start : Bytes)

/-! ## The view -/

/-- The committed rows of a table, as a module sees them. -/
def committedView : StrMap Json := ((s.getTable table).elim ∅ MemTable.rows).map fun _ row => rowToJson row

/-- The committed rows under the writes and tombstones of the call, with the keys that start with `start`. -/
def mergedView : StrMap Json :=
  (layered (committedView s table) (call.overlay[table]?.getD ∅)).filter fun k _ => start.isPrefixOf k

/-- How many pairs a scan answers at most. -/
def scanLimit (limit : Int32) : Nat := if limit ≤ 0 then 1000 else limit.toInt.toNat

/-- A pair as a scan prints it. -/
def printedPair (J : JsonLib) (p : Bytes × Json) : Option Bytes := (J.dump p.2).bind (scanItem J p.1)

/-- The callback over committed rows (host_functions.cpp:288). -/
def keepPrefixed (key text : Bytes) (rows : StrMap Bytes) : Answer × StrMap Bytes :=
  (.goOn, if start.isPrefixOf key then rows.insert key text else rows)

/-- Every key of the table and of what is staged over it, and every text below them, is UTF-8. -/
structure Printable : Prop where
  rows : ∀ t, s.getTable table = some t → ∀ (k : Bytes) (row : Row), t.rows[k]? = some row →
    Utf8 k ∧ ∀ (c : Bytes) (v : Value), row.columns[c]? = some v → Utf8 c ∧ v.Utf8
  staged : ∀ (k : Bytes) (w : Option Json), call.overlay.find table k = some w → Utf8 k ∧ ∀ v, w = some v → v.utf8 = true

end

section
variable {J : JsonLib} {s : Store} {call : HostCallContext} {table start k : Bytes}

theorem getElem?_committedView : (committedView s table)[k]? = (s.get table k).map rowToJson := by
  rw [committedView, ExtTreeMap.getElem?_map, Store.get]
  cases s.getTable table with
  | none => simp
  | some t => rfl

/-- A staged write is seen, a staged delete hides the row, and what is not staged is as committed. -/
theorem getElem?_mergedView : (mergedView s call table start)[k]? =
    if start <+: k then (call.overlay.find table k).getD ((s.get table k).map rowToJson) else none := by
  have hfind : (call.overlay[table]?.getD ∅)[k]? = call.overlay.find table k := by
    rw [Overlay.find]
    cases call.overlay[table]? <;> simp
  rw [mergedView, ExtTreeMap.getElem?_filter', getElem?_layered, hfind, getElem?_committedView]
  by_cases hp : start <+: k
  · rw [if_pos hp]
    cases (call.overlay.find table k).getD ((s.get table k).map rowToJson) <;> simp [Option.filter, hp]
  · rw [if_neg hp]
    cases (call.overlay.find table k).getD ((s.get table k).map rowToJson) <;> simp [Option.filter, hp]

/-! ## The range -/

/-- Every key that starts with the prefix is below the end of the range, where the range has one. -/
theorem lt_rangeEnd (h : start <+: k) : rangeEnd start = [] ∨ compare k (rangeEnd start) = .lt := by
  have hsplit := List.takeWhile_append_dropWhile (p := fun c : UInt8 => decide (c = 255)) (l := start.reverse)
  cases hdrop : start.reverse.dropWhile fun c => c = 255 with
  | nil =>
    left
    rw [rangeEnd, hdrop]
  | cons c rest =>
    right
    have hend : rangeEnd start = rest.reverse ++ (c + 1) :: [] := by
      rw [rangeEnd, hdrop]
      simp
    have hc : c ≠ 255 := by
      have hhead := List.head?_dropWhile_not (fun c : UInt8 => decide (c = 255)) start.reverse
      simpa [hdrop] using hhead
    have hstep : compare c (c + 1) = .lt := by
      rw [compare_eq_lt, UInt8.lt_iff_toNat_lt]
      have hmax : c.toNat ≠ 255 := fun hn => hc (UInt8.toNat_inj.1 hn)
      have hlt := c.toNat_lt
      rw [UInt8.toNat_add, UInt8.toNat_one, Nat.mod_eq_of_lt (by omega)]
      omega
    obtain ⟨t, rfl⟩ := h
    rw [hdrop] at hsplit
    obtain ⟨tail, hstart⟩ : ∃ tail, start = rest.reverse ++ c :: tail := by
      have hrev := congrArg List.reverse hsplit
      rw [List.reverse_reverse, List.reverse_append, List.reverse_cons, List.append_assoc] at hrev
      exact ⟨_, hrev.symm⟩
    rw [hend, hstart, List.append_assoc, List.cons_append]
    exact compare_greater_eq_lt _ hstep _ _

/-- **The range holds every row whose key starts with the prefix.** -/
theorem filter_scan (t : MemTable) (start : Bytes) :
    (t.scan start (rangeEnd start)).filter (fun p => start.isPrefixOf p.1) = (t.rows.filter fun k _ => start.isPrefixOf k).toList := by
  have hout : ∀ k, rangeEnd start ≠ [] → compare k (rangeEnd start) ≠ .lt → start.isPrefixOf k = false := by
    intro k hend hge
    rw [Bool.eq_false_iff]
    intro hp
    exact (lt_rangeEnd (List.isPrefixOf_iff_prefix.1 hp)).elim hend hge
  rw [MemTable.scan, ExtTreeMap.toList_filter, filter_takeWhile (List.Pairwise.sublist (List.dropWhile_sublist _) ExtTreeMap.ordered_keys_toList),
    filter_dropWhile]
  · intro p _ hp
    have hge := compare_prefix_ne_lt (List.isPrefixOf_iff_prefix.1 hp)
    simp [Ordering.isLT]
  · intro p _ hp
    simp only [Bool.or_eq_false_iff, decide_eq_false_iff_not] at hp
    have hgt : compare p.1 (rangeEnd start) ≠ .lt := by
      intro hlt
      simp [hlt] at hp
    refine ⟨hout p.1 hp.1 hgt, fun q hq => hout q.1 hp.1 ?_⟩
    intro hlt
    exact hgt (TransCmp.lt_trans hq hlt)

/-! ## What can be printed -/

theorem Printable.row (h : Printable s call table) {row : Row} (hrow : s.get table k = some row) : Utf8 k ∧ (rowToJson row).utf8 = true := by
  obtain ⟨t, ht, hget⟩ := Option.bind_eq_some_iff.1 hrow
  obtain ⟨hk, hcolumns⟩ := h.rows t ht k row hget
  exact ⟨hk, utf8_rowToJson hcolumns⟩

theorem Printable.view (h : Printable s call table) {v : Json} (hv : (mergedView s call table start)[k]? = some v) :
    Utf8 k ∧ v.utf8 = true := by
  rw [getElem?_mergedView] at hv
  split at hv
  · cases hw : call.overlay.find table k with
    | some w =>
      rw [hw, Option.getD_some] at hv
      obtain ⟨hk, hutf⟩ := h.staged k w hw
      exact ⟨hk, hutf v hv⟩
    | none =>
      rw [hw, Option.getD_none] at hv
      obtain ⟨row, hrow, rfl⟩ := Option.map_eq_some_iff.1 hv
      exact h.row hrow
  · cases hv

/-! ## The scan -/

/-- The committed rows of a scan are those with the prefix, with their texts. -/
theorem scanCommitted_eq (hJ : J.Utf8Only) (h : Printable s call table) : scanCommitted J s table start =
    some (((committedView s table).filter fun k _ => start.isPrefixOf k).map fun _ v => textOf J v) := by
  unfold scanCommitted committedView
  cases ht : s.getTable table with
  | none =>
    refine congrArg some (ExtTreeMap.ext_getElem? fun k => ?_)
    simp [ExtTreeMap.getElem?_map]
  | some t =>
    have htexts : (t.scan start (rangeEnd start)).mapM (fun p => (rowText J p.2).map fun text => (p.1, text)) =
        some ((t.scan start (rangeEnd start)).map fun p => (p.1, textOf J (rowToJson p.2))) := by
      refine mapM_eq_some_map fun p hp => ?_
      obtain ⟨-, hcolumns⟩ := h.rows t ht p.1 p.2 (MemTable.getElem?_of_mem_scan hp)
      rw [rowText, dump_eq_textOf hJ (utf8_rowToJson hcolumns)]
      rfl
    have hlisting : ((t.scan start (rangeEnd start)).map fun p => (p.1, textOf J (rowToJson p.2))).filter (fun p => start.isPrefixOf p.1) =
        (((t.rows.map fun _ row => rowToJson row).filter fun k _ => start.isPrefixOf k).map fun _ v => textOf J v).toList := by
      rw [List.filter_map, ExtTreeMap.toList_map, ExtTreeMap.toList_filter, ExtTreeMap.toList_map, List.filter_map, List.map_map]
      have hscan := filter_scan t start
      rw [ExtTreeMap.toList_filter] at hscan
      exact congrArg (List.map fun p : Bytes × Row => (p.1, textOf J (rowToJson p.2))) hscan
    simp only [htexts, Option.map_some, hlisting, Option.elim_some]
    exact congrArg some (insertAll_perm (List.Perm.refl _))

/-- The loop over what is staged puts it over the rows. -/
theorem scanOverlay_eq (hJ : J.Utf8Only) (h : Printable s call table) (rows : StrMap Bytes) : scanOverlay J call table start rows =
    some (layered rows (((call.overlay[table]?.getD ∅).filter fun k _ => start.isPrefixOf k).map fun _ w => w.map (textOf J))) := by
  have hfilter : (((call.overlay[table]?.getD ∅).filter fun k _ => start.isPrefixOf k).map fun _ w => w.map (textOf J)).toList =
      ((call.overlay[table]?.getD ∅).toList.filter fun p => start.isPrefixOf p.1).map fun p => (p.1, p.2.map (textOf J)) := by
    rw [ExtTreeMap.toList_map, ExtTreeMap.toList_filter]
  rw [layered, hfilter]
  refine foldlM_put (fun p hp acc => ?_) rows
  obtain ⟨key, w⟩ := p
  have hfind : call.overlay.find table key = some w := by
    have hmem := ExtTreeMap.mem_toList_iff_getElem?_eq_some.1 (List.mem_filter.1 hp).1
    rw [Overlay.find]
    cases hw : call.overlay[table]? with
    | none => simp [hw] at hmem
    | some writes => simpa [hw] using hmem
  cases w with
  | none => rfl
  | some v =>
    simp only [dump_eq_textOf hJ ((h.staged key (some v) hfind).2 v rfl), Option.map_some]
    rfl

theorem visit_keepPrefixed {l : List (Bytes × Row)} {texts : List (Bytes × Bytes)}
    (h : l.mapM (fun p => (rowText J p.2).map fun text => (p.1, text)) = some texts) (rows : StrMap Bytes) :
    visit (through (rowText J) (keepPrefixed start)) l rows = (false, insertAll rows (texts.filter fun p => start.isPrefixOf p.1)) := by
  induction l generalizing texts rows with
  | nil =>
    cases h
    rfl
  | cons p l ih =>
    obtain ⟨pair, rest, rfl, hpair, hrest⟩ := mapM_eq_some_cons h
    obtain ⟨text, htext, rfl⟩ := Option.map_eq_some_iff.1 hpair
    obtain ⟨key, row⟩ := p
    simp only at htext
    simp only [visit, through, htext, keepPrefixed]
    rw [ih hrest]
    rw [List.filter_cons]
    by_cases hp : start.isPrefixOf key = true
    · rw [if_pos hp, if_pos hp, insertAll_cons]
    · rw [if_neg hp, if_neg hp]

/-- The loop over the texts the table remembers is the loop over the rows. -/
theorem scanJsonCached_keepPrefixed {t : MemTable} (ht : s.getTable table = some t) (hcache : MemTable.CacheFresh (rowText J) t)
    {rows : StrMap Bytes} (h : scanCommitted J s table start = some rows) :
    (t.scanJsonCached (rowText J) start (rangeEnd start) (keepPrefixed start) ∅).1 = (false, rows) := by
  simp only [scanCommitted, ht, Option.map_eq_some_iff] at h
  obtain ⟨texts, htexts, rfl⟩ := h
  rw [(hcache.scanJsonCached start (rangeEnd start) (keepPrefixed start) ∅).1]
  exact visit_keepPrefixed htexts ∅

theorem toNat_limit (limit : Int32) : (if limit ≤ 0 then defaultScanLimit else limit).toInt.toNat = scanLimit limit := by
  rw [scanLimit]
  split <;> rfl

theorem scanLimit_lt (limit : Int32) : scanLimit limit < 2 ^ 31 := by
  rw [scanLimit]
  split
  · decide
  · have hlt := limit.toInt_lt
    omega

/-- The committed rows and what is staged, put together. -/
theorem scan_rows (hJ : J.Utf8Only) (h : Printable s call table) :
    (scanCommitted J s table start).bind (scanOverlay J call table start) =
      some ((mergedView s call table start).map fun _ v => textOf J v) := by
  rw [scanCommitted_eq hJ h, Option.bind_some, scanOverlay_eq hJ h, layered_filter_map]
  rfl

/-- The pairs of the view all have a text. -/
theorem mapM_scanItem (hJ : J.Utf8Only) (h : Printable s call table) (n : Nat) :
    ∃ items, ((mergedView s call table start).toList.take n).mapM (printedPair J) = some items ∧
      ((((mergedView s call table start).map fun _ v => textOf J v).toList.take n).mapM fun p => scanItem J p.1 p.2) = some items ∧
      items.length = ((mergedView s call table start).toList.take n).length := by
  have hview : ∀ p ∈ (mergedView s call table start).toList.take n, Utf8 p.1 ∧ p.2.utf8 = true := fun p hp =>
    h.view (ExtTreeMap.mem_toList_iff_getElem?_eq_some.1 (List.mem_of_mem_take hp))
  have hprinted : ∀ p ∈ (mergedView s call table start).toList.take n, printedPair J p = scanItem J p.1 (textOf J p.2) := by
    intro p hp
    rw [printedPair, dump_eq_textOf hJ (hview p hp).2, Option.bind_some]
  have hsome : ∀ p ∈ (mergedView s call table start).toList.take n, (printedPair J p).isSome = true := by
    intro p hp
    rw [hprinted p hp, scanItem, dump_eq_textOf hJ (Json.utf8_string.2 (hview p hp).1)]
    rfl
  obtain ⟨items, hitems⟩ := mapM_isSome hsome
  refine ⟨items, hitems, ?_, (forall₂_of_mapM hitems).length_eq.symm⟩
  rw [ExtTreeMap.toList_map, ← List.map_take, List.mapM_map, ← hitems]
  exact mapM_congr fun p hp => (hprinted p hp).symm

/-- **A scan answers the merged view.** Whatever the prefix and the limit, it is the first pairs of the view in the order of
their keys, as many as the limit allows, and their number. The texts the table remembers of its rows change nothing. -/
theorem scan_answers_merged_view (J : JsonLib) (hJ : J.Utf8Only) (caps : ModuleCapabilities) (s : Store) (call : HostCallContext)
    (table start : Bytes) (limit : Int32) (hallowed : tableAllowed caps table = true) (hprint : Printable s call table) :
    (∀ k, (mergedView s call table start)[k]? =
      if start <+: k then (call.overlay.find table k).getD ((s.get table k).map rowToJson) else none) ∧
    (mergedView s call table start).toList.Pairwise (fun p q => compare p.1 q.1 = .lt) ∧
    (∃ (count : Int32) (items : List Bytes),
      ((mergedView s call table start).toList.take (scanLimit limit)).mapM (printedPair J) = some items ∧
      hostTableScan J caps s call table start limit =
        some (count, str "[" ++ (items.intersperse (str ",")).flatten ++ str "]") ∧
      count.toInt = ((mergedView s call table start).toList.take (scanLimit limit)).length) ∧
    ∃ rows, scanCommitted J s table start = some rows ∧
      ∀ t, s.getTable table = some t → MemTable.CacheFresh (rowText J) t →
        (t.scanJsonCached (rowText J) start (rangeEnd start) (keepPrefixed start) ∅).1 = (false, rows) := by
  refine ⟨fun k => getElem?_mergedView, ExtTreeMap.ordered_keys_toList, ?_, ?_⟩
  · obtain ⟨items, hprinted, hitems, hlength⟩ := @mapM_scanItem J s call table start hJ hprint (scanLimit limit)
    refine ⟨Int32.ofNat items.length, items, hprinted, ?_, ?_⟩
    · have hrows := @scan_rows J s call table start hJ hprint
      unfold hostTableScan
      rw [if_neg (by simp [hallowed])]
      obtain ⟨committed, hcommitted, hoverlay⟩ := Option.bind_eq_some_iff.1 hrows
      simp only [hcommitted, hoverlay, toNat_limit, hitems, Option.bind_eq_bind, Option.bind_some, Option.pure_def]
    · have hle : items.length ≤ scanLimit limit := by
        rw [hlength]
        exact List.length_take_le _ _
      have hlt := scanLimit_lt limit
      rw [← hlength, Int32.toInt_ofNat_of_lt (by omega)]
  · refine ⟨_, scanCommitted_eq hJ hprint, fun t ht hcache => ?_⟩
    exact scanJsonCached_keepPrefixed ht hcache (scanCommitted_eq hJ hprint)

theorem no_texts : ∀ d ∈ ([] : List (Json × Bytes)), d.2 ≠ [] ∧ d.2.head? ≠ some 35 ∧ parseTable [] d.2 = some d.1.reparsed := by
  simp

/-- A library that prints everything it can. -/
noncomputable def plainLib : JsonLib := .extended [] no_texts

theorem plainLib_utf8Only : plainLib.Utf8Only := JsonLib.utf8Only_extended no_texts (by simp)

/-- Two rows with the prefix `a`, and one past them, at the end of the range. -/
def threeRowsTable : MemTable where
  schema := ⟨str "t", [], []⟩
  rows := insertAll ∅ [(str "a", { key := str "a" }), (str "ab", { key := str "ab" }), (str "b", { key := str "b" })]

def threeRows : Store := { engine := { tables := (∅ : Tables).insert (str "t") threeRowsTable } }

/-- One of them is deleted, and one is new. -/
def threeRowsCall : HostCallContext :=
  { overlay := ((∅ : Overlay).stage (str "t") (str "a") none).stage (str "t") (str "ac") (some (.object [(str "y", .int 2)])) }

theorem printable_threeRows : Printable threeRows threeRowsCall (str "t") := by
  constructor
  · intro t ht k row hrow
    rw [Store.getTable, threeRows, getElem?_insert, if_pos rfl] at ht
    cases ht
    have hmem := ExtTreeMap.mem_toList_iff_getElem?_eq_some.2 hrow
    have hall : ∀ p ∈ threeRowsTable.rows.toList, Utf8 p.1 ∧ p.2.columns.toList = [] := by decide
    obtain ⟨hk, hcolumns⟩ := hall _ hmem
    refine ⟨hk, fun c v hv => ?_⟩
    have hc := ExtTreeMap.mem_toList_iff_getElem?_eq_some.2 hv
    rw [hcolumns] at hc
    cases hc
  · intro k w hw
    rw [threeRowsCall, find_stage, find_stage] at hw
    split at hw
    · rename_i hkey
      cases hw
      exact ⟨hkey.2 ▸ utf8_str _, fun v hv => by cases hv; simp [utf8_str]⟩
    · split at hw
      · rename_i hkey
        cases hw
        exact ⟨hkey.2 ▸ utf8_str _, fun v hv => by cases hv⟩
      · simp [Overlay.find] at hw

theorem scan_answers_threeRows : ∃ (count : Int32) (items : List Bytes),
    [(str "ab", Json.object []), (str "ac", .object [(str "y", .int 2)])].mapM (printedPair plainLib) = some items ∧
    hostTableScan plainLib {} threeRows threeRowsCall (str "t") (str "a") 0 =
      some (count, str "[" ++ (items.intersperse (str ",")).flatten ++ str "]") ∧ count.toInt = 2 := by
  obtain ⟨-, -, ⟨count, items, hitems, hscan, hcount⟩, -⟩ := scan_answers_merged_view plainLib plainLib_utf8Only {} threeRows
    threeRowsCall (str "t") (str "a") 0 (by decide) printable_threeRows
  have hview : (mergedView threeRows threeRowsCall (str "t") (str "a")).toList.take (scanLimit 0) =
      [(str "ab", Json.object []), (str "ac", .object [(str "y", .int 2)])] := by decide +kernel
  rw [hview] at hitems hcount
  exact ⟨count, items, hitems, hscan, hcount⟩

end

end Wasm

end OriginDB
