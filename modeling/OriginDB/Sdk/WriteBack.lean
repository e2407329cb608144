import OriginDB.Sdk.HostTexts
import OriginDB.Wasm.StoredValues
/-!
# A guest that writes back what it read (`index.ts:247-264`, `:566-595`, `src/wasm/host_functions.cpp:675-725`)

The row goes through four conversions: `RowToJson`, the guest's parser, the guest's printer, `JsonToRow`. Each value comes back
by itself (`writtenBack`): a `null`, a boolean, a string and bytes as they were, an integer below 2⁵³ and a double that is not
an integer below 2⁵³ too. The numbers of the guest are doubles, so a larger integer becomes one; and an integral double is
printed without a point, so it becomes an integer. A double that is not finite is printed as `null`.
-/
namespace OriginDB.Sdk

open JsonDoc JsonGrammar ByteCodec Lists OrdMap Std Wasm Numbers

/-- A reducer that reads a row with `readTable`, parses it with `JsonValue.parse`, prints it with `toString` and writes that
with `writeTable`. -/
def writeBack (rt : JsonValue.Runtime) (table key : Bytes) : Guest :=
  .read table key fun rc text =>
    if rc ≤ 0 then .returns 0
    else
      match tryParse (Utf16.decode text) with
      | .ok v => .write table key (Utf16.encode (v.toString rt)) fun _ => .returns 0
      | .error _ => .abort (str "JsonValue.parse: malformed JSON")

/-- What a module's row has in a column. -/
def ModuleValue : Value → Prop
  | .null | .bool _ | .int64 _ | .double _ | .bytes _ => True
  | .string s => Utf8 s
  | _ => False

/-- What a value has become when the guest has written it back. -/
def writtenBack : Value → Value
  | .int64 v => if v.toInt.natAbs < 2 ^ 53 then .int64 v else .double (ofInt v.toInt)
  | .double bits =>
    if Json.nonFinite bits then .null
    else if JsonValue.isInteger bits then .int64 (Int64.ofInt (Json.truncDouble bits))
    else .double bits
  | v => v

/-- The guest's numbers can tell the value from every other. -/
def Stays : Value → Prop
  | .int64 v => v.toInt.natAbs < 2 ^ 53
  | .double bits => Json.nonFinite bits = false ∧ JsonValue.isInteger bits = false
  | _ => True

/-- The document of a row, as a parser reads it. -/
def rowDoc (row : Row) : Json := (rowToJson row).reparsed

/-- What `dump`, `parse` and the `toString` of `f64` are taken to do with a row: `dump` prints a text of its document, the
numbers that are no integers are printed as numbers, and what the guest prints is parsed as the document it is a text of. -/
structure Faithful (J : JsonLib) (rt : JsonValue.Runtime) (row : Row) : Prop where
  dump : ∀ text, rowText J row = some text → Compact (rowDoc row) (Utf16.decode text)
  f64ToString : PrintsFloats rt (floats (throughGuest (rowDoc row)))
  parse : Compact (throughGuest (rowDoc row)) ((guestValue (rowDoc row)).toString rt) →
    J.parse (Utf16.encode ((guestValue (rowDoc row)).toString rt)) = some (throughGuest (rowDoc row))

section
variable {J : JsonLib} {rt : JsonValue.Runtime} {row : Row} {v : Value}

/-! ## One value -/

theorem writtenBack_eq_iff : writtenBack v = v ↔ Stays v := by
  cases v with
  | int64 v =>
    rw [writtenBack, Stays]
    split <;> simp_all
  | double bits =>
    rw [writtenBack, Stays]
    cases Json.nonFinite bits <;> cases JsonValue.isInteger bits <;> simp
  | _ => simp [writtenBack, Stays]

/-- The four conversions. -/
theorem jsonToValue_throughGuest (h : ModuleValue v) :
    jsonToValue J (throughGuest (valueToJson v).reparsed) = some (writtenBack v) := by
  cases v with
  | int64 v =>
    rw [valueToJson, Json.reparsed, throughGuest, writtenBack]
    · split
      · rw [jsonToValue, Int64.ofInt_toInt]
      · rfl
    all_goals simp
  | double bits =>
    rw [valueToJson, Json.reparsed, writtenBack]
    split
    · rfl
    · rw [throughGuest]
      split <;> rfl
  | bytes b =>
    have hsame : throughGuest (valueToJson (.bytes b)).reparsed = .object [(str "$bytes", .string (Wasm.base64Encode b))] := rfl
    rw [hsame]
    simp only [jsonToValue, List.lookup_cons_self, Wasm.base64Decode_encode, Option.elim_some]
    rfl
  | int32 _ | float _ | timestamp _ => exact h.elim
  | _ => rfl

/-! ## The row -/

theorem throughGuest_rowDoc (row : Row) :
    throughGuest (rowDoc row) = .object (row.columns.toList.map fun p => (p.1, throughGuest (valueToJson p.2).reparsed)) := by
  rw [rowDoc, rowToJson, Json.reparsed, Json.reparsedObject_eq, throughGuest, throughGuestMembers_eq, List.map_map, List.map_map]
  rfl

theorem jsonToRow_throughGuest (J : JsonLib) (key : Bytes)
    (h : ∀ (c : Bytes) (v : Value), row.columns[c]? = some v → Utf8 c ∧ ModuleValue v) :
    jsonToRow J key (throughGuest (rowDoc row)) =
      some { key := key, columns := insertAll ∅ (row.columns.toList.map fun p => (p.1, writtenBack p.2)) } := by
  have hvalues : ∀ l : List (Bytes × Value), (∀ p ∈ l, ModuleValue p.2) →
      (l.map fun p => (p.1, throughGuest (valueToJson p.2).reparsed)).mapM (fun p => (jsonToValue J p.2).map fun v => (p.1, v)) =
        some (l.map fun p => (p.1, writtenBack p.2)) := by
    intro l hl
    induction l with
    | nil => rfl
    | cons p l ih =>
      rw [List.map_cons, List.mapM_cons, ih fun q hq => hl q (List.mem_cons_of_mem _ hq),
        jsonToValue_throughGuest (hl p List.mem_cons_self)]
      rfl
  have hall := hvalues row.columns.toList fun p hp => (h p.1 p.2 (ExtTreeMap.mem_toList_iff_getElem?_eq_some.1 hp)).2
  rw [throughGuest_rowDoc, jsonToRow]
  simp only [hall, Option.map_some]

theorem utf8_of_moduleValue (h : ModuleValue v) : v.Utf8 := by
  cases v with
  | string s => exact h
  | _ => trivial

/-- The reducer stages the document that has come through it. -/
theorem run_writeBack {caps : ModuleCapabilities} {s : Store} {call : HostCallContext} {table key text : Bytes}
    (hallowed : tableAllowed caps table = true) (hwrites : caps.readOnly = false) (hcall : call.overlay.find table key = none)
    (hrow : s.get table key = some row) (hdump : rowText J row = some text) (hlib : Faithful J rt row) :
    (writeBack rt table key).run J caps s call =
      ({ call with overlay := call.overlay.stage table key (some (throughGuest (rowDoc row))) }, .returned 0) := by
  have hcompact := hlib.dump text hdump
  have hread : hostTableRead J caps s call table key = some (1, text) := by
    rw [hostTableRead, if_neg (by simp [hallowed]), hcall]
    simp only [hrow, hdump, Option.map_some]
  have hparse := hlib.parse (compact_toString _ _ hcompact hlib.f64ToString)
  have hwrite : hostTableWrite J caps call table key (Utf16.encode ((guestValue (rowDoc row)).toString rt)) =
      (0, { call with overlay := call.overlay.stage table key (some (throughGuest (rowDoc row))) }) := by
    rw [throughGuest_rowDoc] at hparse ⊢
    rw [hostTableWrite, if_neg (by simp [hallowed, hwrites]), hparse]
  rw [writeBack, Guest.run, hread]
  simp only [show ¬ (1 : Int32) ≤ 0 by decide, if_false, tryParse_of_compact hcompact, Guest.run, hwrite]

theorem utf8_writtenBack (h : ModuleValue v) : (writtenBack v).Utf8 := by
  cases v with
  | int64 v =>
    rw [writtenBack]
    split <;> trivial
  | double bits =>
    rw [writtenBack]
    split
    · trivial
    · split <;> trivial
  | string s => exact h
  | _ => trivial

/-- A row that comes back can be printed when its key can. -/
theorem utf8_writtenBackRow {key : Bytes} (hkey : Utf8 key)
    (h : ∀ (c : Bytes) (v : Value), row.columns[c]? = some v → Utf8 c ∧ ModuleValue v) :
    Row.Utf8 { key := key, columns := insertAll ∅ (row.columns.toList.map fun p => (p.1, writtenBack p.2)) } := by
  refine Row.utf8_iff.2 ⟨hkey, fun c v hc => ?_⟩
  rw [getElem?_insertAll_map (List.Perm.refl _) writtenBack c, Option.map_eq_some_iff] at hc
  obtain ⟨w, hw, rfl⟩ := hc
  exact ⟨(h c w hw).1, utf8_writtenBack (h c w hw).2⟩

/-- The commit of a call that has staged nothing else. -/
theorem commits_writeBack {env : Env} (hJ : env.toJsonLib.Utf8Only) {maxLag : Nat} {io : Io} {moduleName : Bytes} {s : Store}
    {call : HostCallContext} {table key : Bytes} (hio : io.durable = true)
    (hcall : call.overlay = (∅ : Overlay).stage table key (some (throughGuest (rowDoc row)))) (hrow : s.get table key = some row)
    (hkey : Utf8 key) (hrowKey : Utf8 row.key)
    (hmodule : ∀ (c : Bytes) (v : Value), row.columns[c]? = some v → Utf8 c ∧ ModuleValue v) :
    ∃ s', commitHostCall env maxLag io moduleName call s = .returned (.ok ()) s' := by
  have htable : (s.getTable table).isSome = true := by
    obtain ⟨t, ht, -⟩ := Option.bind_eq_some_iff.1 hrow
    rw [ht]
    rfl
  refine commitHostCall_one hio hcall htable ⟨_, jsonToRow_throughGuest _ key hmodule, ?_⟩ fun r hr => ?_
  · exact (serializeRow_isSome hJ).2 (utf8_writtenBackRow hkey hmodule)
  · rw [hrow] at hr
    cases hr
    exact (serializeRow_isSome hJ).2
      (Row.utf8_iff.2 ⟨hrowKey, fun c v hc => ⟨(hmodule c v hc).1, utf8_of_moduleValue (hmodule c v hc).2⟩⟩)

end

/-- **What becomes of a row that a guest writes back.** The reducer ends well, and where it has staged nothing else its call
commits. Once the call is committed, the row has the same columns, each with the value `writtenBack` gives, and so it is
unchanged exactly when each of its values stays. -/
theorem write_back (env : Env) (hJ : env.toJsonLib.Utf8Only) (rt : JsonValue.Runtime) (maxLag : Nat) (io : Io)
    (caps : ModuleCapabilities) (moduleName : Bytes) (s : Store) (call : HostCallContext) (table key : Bytes) (row : Row)
    (hallowed : tableAllowed caps table = true) (hwrites : caps.readOnly = false) (hcall : call.overlay.find table key = none)
    (hrow : s.get table key = some row)
    (hmodule : ∀ (c : Bytes) (v : Value), row.columns[c]? = some v → Utf8 c ∧ ModuleValue v)
    (hlib : Faithful env.toJsonLib rt row) :
    ((writeBack rt table key).run env.toJsonLib caps s call).2 = .returned 0 ∧
    (io.durable = true → call.overlay = ∅ → Utf8 key → Utf8 row.key → ∃ s',
      commitHostCall env maxLag io moduleName ((writeBack rt table key).run env.toJsonLib caps s call).1 s = .returned (.ok ()) s') ∧
    ∀ s₁ s', commitHostCall env maxLag io moduleName ((writeBack rt table key).run env.toJsonLib caps s call).1 s₁ =
        .returned (.ok ()) s' →
      ∃ r, s'.get table key = some r ∧ (∀ c : Bytes, r.columns[c]? = row.columns[c]?.map writtenBack) ∧
        (r.columns = row.columns ↔ ∀ (c : Bytes) (v : Value), row.columns[c]? = some v → Stays v) := by
  have hutf : (rowToJson row).utf8 = true := utf8_rowToJson fun c v hc => ⟨(hmodule c v hc).1, utf8_of_moduleValue (hmodule c v hc).2⟩
  have hdump : rowText env.toJsonLib row = some (textOf env.toJsonLib (rowToJson row)) := dump_eq_textOf hJ hutf
  rw [run_writeBack hallowed hwrites hcall hrow hdump hlib]
  refine ⟨rfl, fun hio hempty hkey hrowKey => ?_, fun s₁ s' hcommit => ?_⟩
  · exact commits_writeBack hJ hio (by rw [hempty]) hrow hkey hrowKey hmodule
  have hrows := (commitsTo_of_ok hcommit).rows table key
  rw [find_stage, if_pos ⟨rfl, rfl⟩] at hrows
  obtain ⟨new, r, hnew, hget, -, hcolumns⟩ := hrows
  rw [jsonToRow_throughGuest env.toJsonLib key hmodule] at hnew
  cases hnew
  have hlookup : ∀ c : Bytes, r.columns[c]? = row.columns[c]?.map writtenBack := by
    intro c
    rw [hcolumns]
    exact getElem?_insertAll_map (List.Perm.refl _) writtenBack c
  refine ⟨r, hget, hlookup, ?_⟩
  constructor
  · intro hsame c v hc
    have hback := hlookup c
    rw [hsame, hc] at hback
    exact writtenBack_eq_iff.1 (Option.some.inj hback).symm
  · intro hstay
    refine ExtTreeMap.ext_getElem? fun c => ?_
    rw [hlookup c]
    cases hc : row.columns[c]? with
    | none => rfl
    | some v => rw [Option.map_some, writtenBack_eq_iff.2 (hstay c v hc)]

/-! ## Two rows -/

theorem floatText_decimal {int ds : Units} (hint : IntPart false int) (hds : Digits ds)
    (hfinite : Json.nonFinite (JsonParser.parseFloat (int ++ 0x2e :: ds)) = false) :
    FloatText (JsonParser.parseFloat (int ++ 0x2e :: ds)) (int ++ 0x2e :: ds) := by
  refine ⟨⟨[], int, 0x2e :: ds, [], .inl rfl, hint, .inr ⟨ds, rfl, hds⟩, .inl rfl, by simp⟩, rfl, hfinite, 0x2e, ?_, .inl rfl⟩
  simp

theorem compact_string {s : Bytes} (h : Utf8 s) : Compact (.string s) (JsonValue.quote (Utf16.decode s)) := by
  rw [Compact]
  exact ⟨h, JsonValue.str_quote _⟩

/-- A table with one row. -/
def holding (row : Row) : Store where
  engine := { tables := (∅ : Tables).insert (str "t") { schema := ⟨str "t", [], []⟩, rows := (∅ : StrMap Row).insert row.key row } }

/-- Bytes, a double that is no integer, an integer and a string beyond ASCII. -/
def halfRow : Row where
  key := str "k"
  columns := insertAll ∅ [(str "b", .bytes [0]), (str "d", .double 0x3fe0000000000000), (str "n", .int64 5), (str "s", .string (str "é"))]

def halfMembers : List (Bytes × Json) :=
  [(str "b", .object [(str "$bytes", .string (str "AA=="))]), (str "d", .float 0x3fe0000000000000), (str "n", .int 5),
   (str "s", .string (str "é"))]

def halfText : Bytes := str "\x7b\"b\":\x7b\"$bytes\":\"AA==\"\x7d,\"d\":0.5,\"n\":5,\"s\":\"é\"\x7d"

/-- A row with the double `1.0`. -/
def oneRow : Row := { key := str "k", columns := insertAll ∅ [(str "d", .double 0x3ff0000000000000)] }

def oneText : Bytes := str "\x7b\"d\":1.0\x7d"

/-- What the guest makes of it. -/
def oneLater : Bytes := str "\x7b\"d\":1\x7d"

def rowDocs : List (Json × Bytes) :=
  [(rowToJson halfRow, halfText), (rowToJson oneRow, oneText), (.object [(str "d", .int 1)], oneLater)]

noncomputable def rowEnv : Env := { toJsonLib := .extended rowDocs (by decide), order := .sorted }

theorem rowEnv_utf8Only : rowEnv.Utf8Only := by
  refine JsonLib.utf8Only_extended (by decide) fun d hd => ?_
  simp only [rowDocs, List.mem_cons, List.not_mem_nil, or_false] at hd
  obtain rfl | rfl | rfl := hd <;> exact utf8_str _

/-- A library that prints one half. -/
def half : JsonValue.Runtime := { f64ToString := fun _ => [0x30, 0x2e, 0x35] }

/-! ### The one that stays -/

theorem halfRow_evaluated :
    (rowText rowEnv.toJsonLib halfRow = some halfText ∧ rowDoc halfRow = .object halfMembers ∧
      throughGuest (rowDoc halfRow) = .object halfMembers ∧ (halfMembers.map Prod.fst).Nodup) ∧
    (Utf16.encode ((guestValue (.object halfMembers)).toString half) = halfText ∧
      parseTable rowDocs halfText = some (.object halfMembers) ∧ (holding halfRow).get (str "t") (str "k") = some halfRow) ∧
    (∀ p ∈ halfRow.columns.toList, p = (str "b", .bytes [0]) ∨ p = (str "d", .double 0x3fe0000000000000) ∨
      p = (str "n", .int64 5) ∨ p = (str "s", .string (str "é"))) ∧
    Json.nonFinite 0x3fe0000000000000 = false ∧ JsonValue.isInteger 0x3fe0000000000000 = false ∧
    JsonParser.parseFloat [0x30, 0x2e, 0x35] = 0x3fe0000000000000 ∧
    Utf16.decode halfText = [0x7b] ++ (JsonValue.quote (Utf16.decode (str "b")) ++ [0x3a] ++
      ([0x7b] ++ (JsonValue.quote (Utf16.decode (str "$bytes")) ++ [0x3a] ++ JsonValue.quote (Utf16.decode (str "AA=="))) ++ [0x7d]) ++
      [0x2c] ++ (JsonValue.quote (Utf16.decode (str "d")) ++ [0x3a] ++ [0x30, 0x2e, 0x35] ++
      [0x2c] ++ (JsonValue.quote (Utf16.decode (str "n")) ++ [0x3a] ++ JsonValue.i64ToString 5 ++
      [0x2c] ++ (JsonValue.quote (Utf16.decode (str "s")) ++ [0x3a] ++ JsonValue.quote (Utf16.decode (str "é")))))) ++ [0x7d] := by
  decide +kernel

theorem floatText_half : FloatText 0x3fe0000000000000 [0x30, 0x2e, 0x35] := by
  obtain ⟨-, -, -, hfinite, -, hparse, -⟩ := halfRow_evaluated
  have hdecimal := @floatText_decimal [0x30] [0x35] (.inl rfl) ⟨by simp, by simp [JsonGrammar.isDigit]⟩
  rw [List.singleton_append, hparse] at hdecimal
  exact hdecimal hfinite

theorem compact_name (k : String) : Utf8 (str k) ∧ Str false (JsonValue.quote (Utf16.decode (str k))) (Utf16.decode (str k)) :=
  ⟨utf8_str k, JsonValue.str_quote _⟩

theorem compact_half : Compact (.object halfMembers) (Utf16.decode halfText) := by
  obtain ⟨⟨-, -, -, hnodup⟩, -, -, -, -, -, htext⟩ := halfRow_evaluated
  have hbytes : Compact (.object [(str "$bytes", .string (str "AA=="))])
      ([0x7b] ++ (JsonValue.quote (Utf16.decode (str "$bytes")) ++ [0x3a] ++ JsonValue.quote (Utf16.decode (str "AA=="))) ++ [0x7d]) := by
    rw [Compact]
    refine ⟨by simp, _, ?_, rfl⟩
    rw [CompactMembers]
    exact ⟨_, _, compact_name "$bytes", compact_string (utf8_str _), rfl⟩
  have hfloat : Compact (.float 0x3fe0000000000000) [0x30, 0x2e, 0x35] := by
    rw [Compact]
    exact floatText_half
  have hint : Compact (.int 5) (JsonValue.i64ToString 5) := by
    rw [Compact]
    exact ⟨by decide, rfl⟩
  have hlast : CompactMembers [(str "s", .string (str "é"))]
      (JsonValue.quote (Utf16.decode (str "s")) ++ [0x3a] ++ JsonValue.quote (Utf16.decode (str "é"))) := by
    rw [CompactMembers]
    exact ⟨_, _, compact_name "s", compact_string (utf8_str _), rfl⟩
  have hmembers := compactMembers_cons.2 ⟨_, _, _, compact_name "b", hbytes, compactMembers_cons.2 ⟨_, _, _, compact_name "d", hfloat,
    compactMembers_cons.2 ⟨_, _, _, compact_name "n", hint, hlast, rfl⟩, rfl⟩, rfl⟩
  rw [Compact]
  exact ⟨hnodup, _, hmembers, htext⟩

theorem faithful_half : Faithful rowEnv.toJsonLib half halfRow := by
  obtain ⟨⟨hdump, hdoc, hthrough, -⟩, ⟨hprinted, hparsed, -⟩, -⟩ := halfRow_evaluated
  constructor
  · intro text htext
    rw [hdump] at htext
    cases htext
    rw [hdoc]
    exact compact_half
  · rw [hthrough]
    intro b hb
    rw [List.mem_singleton.1 (show b ∈ [0x3fe0000000000000] from hb)]
    exact floatText_half
  · intro _
    rw [hthrough, hdoc, hprinted]
    show (parseTable rowDocs halfText).or (parseNumber halfText) = _
    rw [hparsed, Option.some_or]

theorem write_back_half : ∃ s' r,
    commitHostCall rowEnv 100000 {} (str "m") ((writeBack half (str "t") (str "k")).run rowEnv.toJsonLib {} (holding halfRow) {}).1
      (holding halfRow) = .returned (.ok ()) s' ∧
    s'.get (str "t") (str "k") = some r ∧ r.columns = halfRow.columns := by
  obtain ⟨-, ⟨-, -, hrow⟩, hcolumns, hfinite, hinteger, -⟩ := halfRow_evaluated
  have hvalues : ∀ (c : Bytes) (v : Value), halfRow.columns[c]? = some v → (Utf8 c ∧ ModuleValue v) ∧ Stays v := by
    intro c v hc
    obtain h | h | h | h := hcolumns (c, v) (ExtTreeMap.mem_toList_iff_getElem?_eq_some.2 hc) <;> cases h
    · exact ⟨⟨utf8_str _, trivial⟩, trivial⟩
    · exact ⟨⟨utf8_str _, trivial⟩, hfinite, hinteger⟩
    · exact ⟨⟨utf8_str _, trivial⟩, show (5 : Int64).toInt.natAbs < 2 ^ 53 by decide⟩
    · exact ⟨⟨utf8_str _, utf8_str _⟩, trivial⟩
  obtain ⟨-, hcommits, hafter⟩ := write_back rowEnv rowEnv_utf8Only half 100000 {} {} (str "m") (holding halfRow) {} (str "t") (str "k")
    halfRow rfl rfl (by simp [Overlay.find]) hrow (fun c v hc => (hvalues c v hc).1) faithful_half
  obtain ⟨s', hcommit⟩ := hcommits rfl rfl (utf8_str _) (utf8_str _)
  obtain ⟨r, hget, -, hsame⟩ := hafter (holding halfRow) s' hcommit
  exact ⟨s', r, hcommit, hget, hsame.2 fun c v hc => (hvalues c v hc).2⟩

/-! ### The one that does not -/

theorem oneRow_evaluated :
    (rowText rowEnv.toJsonLib oneRow = some oneText ∧ rowDoc oneRow = .object [(str "d", .float 0x3ff0000000000000)] ∧
      throughGuest (rowDoc oneRow) = .object [(str "d", .int 1)]) ∧
    (Utf16.encode ((guestValue (rowDoc oneRow)).toString half) = oneLater ∧ parseTable rowDocs oneLater = some (.object [(str "d", .int 1)]) ∧
      (holding oneRow).get (str "t") (str "k") = some oneRow) ∧
    (∀ p ∈ oneRow.columns.toList, p = (str "d", .double 0x3ff0000000000000)) ∧
    (oneRow.columns[str "d"]? = some (.double 0x3ff0000000000000) ∧
      (insertAll (∅ : Columns) (oneRow.columns.toList.map fun p => (p.1, writtenBack p.2)))[str "d"]? = some (.int64 1)) ∧
    Json.nonFinite 0x3ff0000000000000 = false ∧ JsonParser.parseFloat [0x31, 0x2e, 0x30] = 0x3ff0000000000000 ∧
    Utf16.decode oneText = [0x7b] ++ (JsonValue.quote (Utf16.decode (str "d")) ++ [0x3a] ++ [0x31, 0x2e, 0x30]) ++ [0x7d] := by
  decide

theorem faithful_one : Faithful rowEnv.toJsonLib half oneRow := by
  obtain ⟨⟨hdump, hdoc, hthrough⟩, ⟨hprinted, hparsed, -⟩, -, -, hfinite, hvalue, hcompact⟩ := oneRow_evaluated
  constructor
  · intro text htext
    rw [hdump] at htext
    cases htext
    have hdecimal := @floatText_decimal [0x31] [0x30] (.inr (.inl ⟨0x31, [], rfl, by decide, by decide, by simp⟩)) ⟨by simp, by simp [JsonGrammar.isDigit]⟩
    rw [List.singleton_append, hvalue] at hdecimal
    have hfloat : Compact (.float 0x3ff0000000000000) [0x31, 0x2e, 0x30] := by
      rw [Compact]
      exact hdecimal hfinite
    have hmembers : CompactMembers [(str "d", .float 0x3ff0000000000000)]
        (JsonValue.quote (Utf16.decode (str "d")) ++ [0x3a] ++ [0x31, 0x2e, 0x30]) := by
      rw [CompactMembers]
      exact ⟨_, _, compact_name "d", hfloat, rfl⟩
    rw [hdoc, Compact]
    exact ⟨by simp, _, hmembers, hcompact⟩
  · rw [hthrough]
    intro b hb
    cases hb
  · intro _
    rw [hthrough, hprinted]
    show (parseTable rowDocs oneLater).or (parseNumber oneLater) = _
    rw [hparsed, Option.some_or]

/-- A double with an integral value is an integer afterwards. -/
theorem integral_double_changes : rowEnv.Utf8Only ∧ Faithful rowEnv.toJsonLib half oneRow ∧
    (holding oneRow).get (str "t") (str "k") = some oneRow ∧ oneRow.columns[str "d"]? = some (.double 0x3ff0000000000000) ∧
    ∃ s' r, commitHostCall rowEnv 100000 {} (str "m")
        ((writeBack half (str "t") (str "k")).run rowEnv.toJsonLib {} (holding oneRow) {}).1 (holding oneRow) = .returned (.ok ()) s' ∧
      s'.get (str "t") (str "k") = some r ∧ r.columns[str "d"]? = some (.int64 1) := by
  obtain ⟨⟨hdump, -, -⟩, ⟨-, -, hrow⟩, hcolumns, ⟨hbefore, hlater⟩, -⟩ := oneRow_evaluated
  have hmodule : ∀ (c : Bytes) (v : Value), oneRow.columns[c]? = some v → Utf8 c ∧ ModuleValue v := by
    intro c v hc
    cases hcolumns (c, v) (ExtTreeMap.mem_toList_iff_getElem?_eq_some.2 hc)
    exact ⟨utf8_str _, trivial⟩
  refine ⟨rowEnv_utf8Only, faithful_one, hrow, hbefore, ?_⟩
  rw [run_writeBack rfl rfl (by simp [Overlay.find]) hrow hdump faithful_one]
  obtain ⟨s', hcommit⟩ : ∃ s', commitHostCall rowEnv 100000 {} (str "m")
      { overlay := (∅ : Overlay).stage (str "t") (str "k") (some (throughGuest (rowDoc oneRow))) } (holding oneRow) =
      .returned (.ok ()) s' := commits_writeBack rowEnv_utf8Only rfl rfl hrow (utf8_str _) (utf8_str _) hmodule
  have hrows := (commitsTo_of_ok hcommit).rows (str "t") (str "k")
  rw [find_stage, if_pos ⟨rfl, rfl⟩] at hrows
  obtain ⟨new, r, hnew, hget, -, hafter⟩ := hrows
  rw [jsonToRow_throughGuest _ _ hmodule] at hnew
  cases hnew
  refine ⟨s', r, hcommit, hget, ?_⟩
  rw [hafter]
  exact hlater

end OriginDB.Sdk
