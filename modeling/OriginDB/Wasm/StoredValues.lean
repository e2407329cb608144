import OriginDB.Storage.Checkpointable
import OriginDB.Wasm.HostBase64
import OriginDB.Wasm.StagedWrites
/-!
# What a module reads of a value before and after the commit (`src/wasm/host_functions.cpp:163-191`, `:624-725`)

In the call that wrote it a value is read as it was written. The commit makes columns of its members, and a later call reads
what the columns hold (`storedJson`): a scalar is as it was, an array or an object is its JSON text, and an object with a text
in `$bytes` is the bytes of that text and nothing else, or `null` when the text is no base64. So the two are the same value
exactly when every member is `Kept`.

An integer from 2^63 on is taken as unsigned by the parser and is no column's: nothing is said of it here (`Fits`).
-/
namespace OriginDB

open JsonDoc ByteCodec Lists OrdMap Std

namespace Wasm

theorem utf8_base64Encode (b : Bytes) : Utf8 (base64Encode b) := by
  have hchar : ∀ n, Utf8 [base64Char n] := base64Char_cases (p := fun c _ => Utf8 [c]) (by decide +kernel)
  have hpad : Utf8 [61] := utf8_str "="
  fun_induction base64Encode b with
  | case1 => exact utf8_nil
  | case2 a => exact (hchar _).append ((hchar _).append (hpad.append hpad))
  | case3 a b => exact (hchar _).append ((hchar _).append ((hchar _).append hpad))
  | case4 a b c rest ih => exact (hchar _).append ((hchar _).append ((hchar _).append ((hchar _).append ih)))

/-! ## Texts -/

section
variable {J : JsonLib}

/-- The text of a value that can be printed. -/
def textOf (J : JsonLib) (v : Json) : Bytes := (J.dump v).getD []

theorem dump_eq_textOf (hJ : J.Utf8Only) {v : Json} (h : v.utf8 = true) : J.dump v = some (textOf J v) := by
  obtain ⟨text, htext⟩ := Option.isSome_iff_exists.1 ((hJ.dump_isSome v).2 h)
  rw [textOf, htext, Option.getD_some]

theorem utf8_valueToJson {v : Value} (h : v.Utf8) : (valueToJson v).utf8 = true := by
  cases v with
  | string s => exact Json.utf8_string.2 h
  | bytes b => simp [valueToJson, utf8_base64Encode, utf8_str]
  | _ => simp [valueToJson]

theorem utf8_rowToJson {row : Row} (h : ∀ (c : Bytes) (v : Value), row.columns[c]? = some v → Utf8 c ∧ v.Utf8) :
    (rowToJson row).utf8 = true := by
  rw [rowToJson, Json.utf8_object]
  intro p hp
  obtain ⟨q, hq, rfl⟩ := List.mem_map.1 hp
  obtain ⟨hc, hv⟩ := h q.1 q.2 (ExtTreeMap.mem_toList_iff_getElem?_eq_some.1 hq)
  exact ⟨hc, utf8_valueToJson hv⟩

end

/-! ## What becomes of a member -/

/-- What a later call reads of a member. -/
def storedJson (J : JsonLib) : Json → Option Json
  | .object m =>
    match m.lookup (str "$bytes") with
    | some (.string s) => some ((base64Decode s).elim .null fun b => .object [(str "$bytes", .string (base64Encode b))])
    | _ => (J.dump (.object m)).map .string
  | .array l => (J.dump (.array l)).map .string
  | .binary b => (J.dump (.binary b)).map .string
  | v => some v

def storedMembers (J : JsonLib) (m : List (Bytes × Json)) : Option (List (Bytes × Json)) :=
  m.mapM fun p => (storedJson J p.2).map fun v => (p.1, v)

/-- A scalar, or bytes as they are printed. -/
def Kept : Json → Prop
  | .object m => ∃ b, m = [(str "$bytes", .string (base64Encode b))]
  | .array _ | .binary _ => False
  | _ => True

/-- An integer of 64 signed bits, when it is one. -/
def Fits : Json → Prop
  | .int v => -2 ^ 63 ≤ v ∧ v < 2 ^ 63
  | _ => True

/-- The members of an object as the parser makes it: its strings are UTF-8, its numbers are finite, and it is a map. -/
structure Parsed (m : List (Bytes × Json)) : Prop where
  utf8 : ∀ p ∈ m, Utf8 p.1 ∧ p.2.utf8 = true
  reparsed : ∀ p ∈ m, p.2.reparsed = p.2
  ordered : m.Pairwise fun p q => compare p.1 q.1 = .lt

section
variable {J : JsonLib} {v v' : Json} {m later : List (Bytes × Json)}

/-- `JsonToRow` and back, on one member. -/
theorem jsonToValue_back (h : Fits v) : (jsonToValue J v).map valueToJson = storedJson J v := by
  cases v with
  | int i =>
    have hint : (Int64.ofInt i).toInt = i := by
      rw [Int64.toInt_ofInt_of_le (by simpa using h.1) (by simpa using h.2)]
    simp [jsonToValue, valueToJson, storedJson, hint]
  | object m =>
    simp only [jsonToValue, storedJson]
    cases m.lookup (str "$bytes") with
    | none =>
      rw [Option.map_map]
      rfl
    | some w => cases w with
      | string s =>
        dsimp only
        cases base64Decode s <;> rfl
      | _ =>
        rw [Option.map_map]
        rfl
  | array l =>
    simp only [jsonToValue, storedJson, Option.map_map]
    rfl
  | binary b =>
    simp only [jsonToValue, storedJson, Option.map_map]
    rfl
  | _ => rfl

/-- A member stays what it is exactly when it is kept. -/
theorem storedJson_eq_iff (h : storedJson J v = some v') : v' = v ↔ Kept v := by
  cases v with
  | object m =>
    simp only [storedJson] at h
    constructor
    · rintro rfl
      split at h
      · rename_i s _
        cases hb : base64Decode s with
        | none =>
          rw [hb] at h
          cases h
        | some b =>
          rw [hb] at h
          cases h
          exact ⟨b, rfl⟩
      · obtain ⟨text, -, htext⟩ := Option.map_eq_some_iff.1 h
        cases htext
    · rintro ⟨b, rfl⟩
      simp only [List.lookup_cons_self, base64Decode_encode, Option.elim_some, Option.some.injEq] at h
      exact h.symm
  | array l =>
    obtain ⟨text, -, rfl⟩ := Option.map_eq_some_iff.1 h
    simp [Kept]
  | binary b =>
    obtain ⟨text, -, rfl⟩ := Option.map_eq_some_iff.1 h
    simp [Kept]
  | _ =>
    cases h
    simp [Kept]

/-- What is stored can be printed and parsed again as it is. -/
theorem storedJson_plain (hJ : J.Utf8Only) (hutf : v.utf8 = true) (hre : v.reparsed = v) (h : storedJson J v = some v') :
    v'.utf8 = true ∧ v'.reparsed = v' := by
  have htext : ∀ {j : Json}, (J.dump j).map Json.string = some v' → v'.utf8 = true ∧ v'.reparsed = v' := by
    intro j hj
    obtain ⟨text, hdump, rfl⟩ := Option.map_eq_some_iff.1 hj
    exact ⟨Json.utf8_string.2 (hJ.utf8_dump j text hdump), rfl⟩
  cases v with
  | object m =>
    simp only [storedJson] at h
    split at h
    · rename_i s _
      cases hb : base64Decode s with
      | none =>
        rw [hb] at h
        cases h
        exact ⟨rfl, rfl⟩
      | some b =>
        rw [hb] at h
        cases h
        exact ⟨by simp [utf8_base64Encode, utf8_str], rfl⟩
    · exact htext h
  | array l => exact htext h
  | binary b => exact htext h
  | _ =>
    cases h
    exact ⟨hutf, hre⟩

/-! ## The object -/

theorem members_of_stored (h : storedMembers J m = some later) :
    List.Forall₂ (fun p q => q.1 = p.1 ∧ storedJson J p.2 = some q.2) m later := by
  refine (forall₂_of_mapM h).imp fun p q hpq => ?_
  obtain ⟨v, hv, rfl⟩ := Option.map_eq_some_iff.1 hpq
  exact ⟨rfl, hv⟩

/-- `JsonToRow` and `RowToJson` on the whole object. -/
theorem rowToJson_jsonToRow {key : Bytes} {row : Row} (hm : Parsed m) (hfits : ∀ p ∈ m, Fits p.2)
    (h : jsonToRow J key (.object m) = some row) :
    ∃ later, storedMembers J m = some later ∧ rowToJson row = .object later := by
  obtain ⟨l, hl, rfl⟩ := Option.map_eq_some_iff.1 h
  have hmembers : List.Forall₂ (fun p q => q.1 = p.1 ∧ jsonToValue J p.2 = some q.2) m l := by
    refine (forall₂_of_mapM hl).imp fun p q hpq => ?_
    obtain ⟨v, hv, rfl⟩ := Option.map_eq_some_iff.1 hpq
    exact ⟨rfl, hv⟩
  have hkeys : l.map Prod.fst = m.map Prod.fst := by
    clear hl h hm hfits
    induction hmembers with
    | nil => rfl
    | cons hpq _ ih => rw [List.map_cons, List.map_cons, hpq.1, ih]
  have hordered : l.Pairwise fun p q => compare p.1 q.1 = .lt := by
    have hfst : (m.map Prod.fst).Pairwise fun a b => compare a b = .lt := List.pairwise_map.2 hm.ordered
    rw [← hkeys] at hfst
    exact List.pairwise_map.1 hfst
  refine ⟨l.map fun q => (q.1, valueToJson q.2), ?_, ?_⟩
  · clear hl h hm hkeys hordered
    induction hmembers with
    | nil => rfl
    | @cons p q m l hpq _ ih =>
      have hstored : storedJson J p.2 = some (valueToJson q.2) := by
        rw [← jsonToValue_back (hfits p (by simp)), hpq.2, Option.map_some]
      rw [storedMembers, List.mapM_cons, hstored, ← storedMembers, ih fun r hr => hfits r (by simp [hr]), List.map_cons, hpq.1]
      rfl
  · rw [rowToJson, toList_insertAll hordered]

theorem reparsed_object (h : ∀ p ∈ m, p.2.reparsed = p.2) : (Json.object m).reparsed = .object m := by
  have hsame : m.map (fun p => (p.1, p.2.reparsed)) = m.map id := List.map_congr_left fun p hp => Prod.ext rfl (h p hp)
  rw [Json.reparsed, Json.reparsedObject_eq, hsame, List.map_id]

/-- The object that is stored can be printed, and parsed again. -/
theorem storedMembers_plain (hJ : J.Utf8Only) (hm : Parsed m) (h : storedMembers J m = some later) :
    (Json.object later).utf8 = true ∧ (Json.object later).reparsed = .object later := by
  have hall : ∀ q ∈ later, Utf8 q.1 ∧ q.2.utf8 = true ∧ q.2.reparsed = q.2 := by
    intro q hq
    obtain ⟨p, hp, hkey, hstored⟩ := (mem_of_forall₂ (members_of_stored h)).2 q hq
    have hplain := storedJson_plain hJ (hm.utf8 p hp).2 (hm.reparsed p hp) hstored
    exact ⟨hkey ▸ (hm.utf8 p hp).1, hplain⟩
  constructor
  · rw [Json.utf8_object]
    exact fun q hq => ⟨(hall q hq).1, (hall q hq).2.1⟩
  · exact reparsed_object fun q hq => (hall q hq).2.2

/-- The object is the same exactly when its members are kept. -/
theorem storedMembers_eq_iff (h : storedMembers J m = some later) : later = m ↔ ∀ p ∈ m, Kept p.2 := by
  have hmembers := members_of_stored h
  clear h
  induction hmembers with
  | nil => simp
  | @cons p q m later hpq _ ih =>
    obtain ⟨hkey, hstored⟩ := hpq
    rw [List.cons.injEq, List.forall_mem_cons, Prod.ext_iff, and_iff_right hkey]
    exact and_congr (storedJson_eq_iff hstored) ih

/-! ## Reading it -/

/-- A write that is accepted is of a table that is allowed, and stages the object. -/
theorem accepted_write {caps : ModuleCapabilities} {call : HostCallContext} {table key value : Bytes}
    (h : (hostTableWrite J caps call table key value).1 = 0) (hvalue : J.parse value = some (.object m)) :
    tableAllowed caps table = true ∧
      (hostTableWrite J caps call table key value).2.overlay.find table key = some (some (.object m)) := by
  unfold hostTableWrite at h ⊢
  split at h
  · cases h
  · rename_i hallowed
    rw [not_or, Bool.not_eq_false] at hallowed
    refine ⟨hallowed.2, ?_⟩
    rw [if_neg (by simp [hallowed]), hvalue]
    exact (find_stage _ _ _ _ _ _).trans (if_pos ⟨rfl, rfl⟩)

/-- **What is read before and after the commit.** Later in the call that wrote an object, the object is read; after the commit
a later call reads it with each member as it is stored. They are the same value exactly when every member is kept. -/
theorem read_after_commit (env : Env) (hJ : env.toJsonLib.Utf8Only) (maxLag : Nat) (io : Io) (caps : ModuleCapabilities)
    (moduleName : Bytes) (before call : HostCallContext) (s : Store) (table key value : Bytes) (m : List (Bytes × Json))
    (hwrite : (hostTableWrite env.toJsonLib caps before table key value).1 = 0) (hvalue : env.toJsonLib.parse value = some (.object m))
    (hm : Parsed m) (hfits : ∀ p ∈ m, Fits p.2)
    (hcall : call.overlay.find table key = (hostTableWrite env.toJsonLib caps before table key value).2.overlay.find table key) :
    (∃ text, hostTableRead env.toJsonLib caps s call table key = some (1, text) ∧ env.toJsonLib.parse text = some (.object m)) ∧
    ∀ s', commitHostCall env maxLag io moduleName call s = .returned (.ok ()) s' →
      ∃ later text, storedMembers env.toJsonLib m = some later ∧ env.toJsonLib.parse text = some (.object later) ∧
        (∀ (caps' : ModuleCapabilities) (next : HostCallContext), tableAllowed caps' table = true →
          next.overlay.find table key = none → hostTableRead env.toJsonLib caps' s' next table key = some (1, text)) ∧
        (later = m ↔ ∀ p ∈ m, Kept p.2) := by
  obtain ⟨hallowed, hstaged⟩ := accepted_write hwrite hvalue
  rw [hstaged] at hcall
  constructor
  · have hdump := dump_eq_textOf hJ (Json.utf8_object.2 hm.utf8)
    have hparse := env.parse_dump _ _ hdump
    rw [reparsed_object hm.reparsed] at hparse
    refine ⟨textOf env.toJsonLib (.object m), ?_, hparse⟩
    rw [hostTableRead, if_neg (by simp [hallowed]), hcall]
    simp only [hdump, Option.map_some]
  · intro s' hcommit
    have hrows := (commitsTo_of_ok hcommit).rows table key
    rw [hcall] at hrows
    obtain ⟨row, r, hrow, hget, -, hcolumns⟩ := hrows
    obtain ⟨later, hlater, hjson⟩ := rowToJson_jsonToRow hm hfits hrow
    obtain ⟨hutf, hsame⟩ := storedMembers_plain hJ hm hlater
    have hread : rowToJson r = .object later := by
      rw [← hjson, rowToJson, rowToJson, hcolumns]
    have hdump := dump_eq_textOf hJ hutf
    have hparse := env.parse_dump _ _ hdump
    rw [hsame] at hparse
    refine ⟨later, _, hlater, hparse, fun caps' next hallowed' hnext => ?_, storedMembers_eq_iff hlater⟩
    rw [hostTableRead, if_neg (by simp [hallowed']), hnext]
    simp only [hget, rowText, hread, hdump, Option.map_some]

/-- `{"a":[1]}`, and its member. -/
def listDocs : List (Json × Bytes) :=
  [(.object [(str "a", .array [.int 1])], str "\x7b\"a\":[1]\x7d"), (.array [.int 1], str "[1]")]

noncomputable def listEnv : Env := { toJsonLib := .extended listDocs (by decide), order := .sorted }

theorem listEnv_utf8Only : listEnv.Utf8Only := JsonLib.utf8Only_extended (by decide) (by decide)

/-- A call that writes the object to a table that is there. -/
def listCall : HostCallContext := { overlay := (∅ : Overlay).stage (str "t") (str "k") (some (.object [(str "a", .array [.int 1])])) }

theorem listCall_commits : ∃ s', commitHostCall listEnv 100000 {} (str "m") listCall { engine := emptyTable } = .returned (.ok ()) s' := by
  refine commitHostCall_one rfl rfl (by decide) ?_ fun r hr => ?_
  · exact ⟨{ key := str "k", columns := insertAll ∅ [(str "a", .string (str "[1]"))] }, by decide,
      (serializeRow_isSome listEnv_utf8Only).2 (by decide)⟩
  · rw [show Store.get { engine := emptyTable } (str "t") (str "k") = none by decide] at hr
    cases hr

/-- The array is read as a text. -/
theorem read_after_commit_list : ∃ s' text,
    commitHostCall listEnv 100000 {} (str "m") listCall { engine := emptyTable } = .returned (.ok ()) s' ∧
    hostTableRead listEnv.toJsonLib {} s' {} (str "t") (str "k") = some (1, text) ∧
    listEnv.parse text = some (.object [(str "a", .string (str "[1]"))]) := by
  obtain ⟨s', hcommit⟩ := listCall_commits
  obtain ⟨-, hafter⟩ := read_after_commit listEnv listEnv_utf8Only 100000 {} {} (str "m") {} listCall { engine := emptyTable }
    (str "t") (str "k") (str "\x7b\"a\":[1]\x7d") [(str "a", .array [.int 1])] rfl rfl
    ⟨by decide, by decide, by decide⟩ (by simp [Fits]) rfl
  obtain ⟨later, text, hlater, hparse, hread, -⟩ := hafter s' hcommit
  have hstored : storedMembers listEnv.toJsonLib [(str "a", .array [.int 1])] = some [(str "a", .string (str "[1]"))] := rfl
  rw [hstored] at hlater
  cases hlater
  exact ⟨s', text, hcommit, hread {} {} rfl (by decide), hparse⟩

/-! ## A value that is not read back -/

/-- An array, no base64, bytes with something beside them, and an integer of 64 unsigned bits. -/
def mixed : List (Bytes × Json) :=
  [(str "a", .array [.int 1]), (str "b", .object [(str "$bytes", .string (str "!"))]),
   (str "c", .object [(str "$bytes", .string (str "AA==")), (str "x", .int 1)]), (str "n", .int (2 ^ 64 - 1))]

def mixedText : Bytes :=
  str "\x7b\"a\":[1],\"b\":\x7b\"$bytes\":\"!\"\x7d,\"c\":\x7b\"$bytes\":\"AA==\",\"x\":1\x7d,\"n\":18446744073709551615\x7d"

def mixedLater : List (Bytes × Json) :=
  [(str "a", .string (str "[1]")), (str "b", .null), (str "c", .object [(str "$bytes", .string (str "AA=="))]), (str "n", .int (-1))]

def mixedLaterText : Bytes := str "\x7b\"a\":\"[1]\",\"b\":null,\"c\":\x7b\"$bytes\":\"AA==\"\x7d,\"n\":-1\x7d"

def mixedRow : Row where
  key := str "k"
  columns := insertAll ∅ [(str "a", .string (str "[1]")), (str "b", .null), (str "c", .bytes [0]), (str "n", .int64 (-1))]

def mixedDocs : List (Json × Bytes) :=
  [(.object mixed, mixedText), (.array [.int 1], str "[1]"), (.object mixedLater, mixedLaterText),
   (rowJson mixedRow, str "\x7b\"columns\":\x7b\"a\":\"[1]\",\"b\":null,\"c\":\x7b\"bytes\":[0],\"subtype\":null\x7d,\"n\":-1\x7d,\"key\":\"k\"\x7d")]

def mixedEnv : Env := { toJsonLib := .ofTable mixedDocs (by decide +kernel), order := .sorted }

/-- The call that writes it. -/
def mixedCall : HostCallContext := (hostTableWrite mixedEnv.toJsonLib {} {} (str "t") (str "k") mixedText).2

theorem read_changes_at_commit : ∃ s',
    (hostTableWrite mixedEnv.toJsonLib {} {} (str "t") (str "k") mixedText).1 = 0 ∧
    hostTableRead mixedEnv.toJsonLib {} { engine := emptyTable } mixedCall (str "t") (str "k") = some (1, mixedText) ∧
    commitHostCall mixedEnv 100000 {} (str "m") mixedCall { engine := emptyTable } = .returned (.ok ()) s' ∧
    hostTableRead mixedEnv.toJsonLib {} s' {} (str "t") (str "k") = some (1, mixedLaterText) ∧
    mixedEnv.parse mixedText = some (.object mixed) ∧ mixedEnv.parse mixedLaterText = some (.object mixedLater) ∧ mixedLater ≠ mixed :=
  ⟨_, by decide +kernel, by decide, rfl, by decide, by decide +kernel, by decide, by decide +kernel⟩

end

end Wasm

end OriginDB
