import Mathlib.Data.List.ReduceOption
import OriginDB.Sdk.Registry
import OriginDB.Sdk.WriteBack
import OriginDB.Wasm.Metadata
/-!
# What a module says about its handlers (`index.ts:790-823, 853-862`, `wasm_engine.cpp:615-670`)

`origindb_describe` prints the registry: the reducers with the names of their parameters, then the filters, each with the one
parameter `event`. The host takes exactly these as the module's metadata, so the metadata names what a call finds a handler for
(`describe_lists_handlers`). A name under which there are a reducer and a filter is listed twice.

The strings are texts (`Text`): a lone surrogate is printed as bytes that are not UTF-8, which the host's parser refuses, and
then there is no metadata.
-/
namespace OriginDB.Sdk

open JsonDoc JsonGrammar ByteCodec JsonParser Wasm LinearMemory OrdMap

/-! ## The SDK -/

namespace Registry

def nameKey : Units := Utf16.units "name".toList

def paramsKey : Units := Utf16.units "params".toList

def paramsJson (params : List Units) : JsonValue := params.foldl (fun ps param => ps.push (.string param)) (.array [])

def handlerJson (name : Units) (params : List Units) : JsonValue :=
  ((JsonValue.object []).set nameKey (.string name)).set paramsKey (paramsJson params)

/-- `buildDescribeJson` (`:791`); `none` is the exception of `Map.get`. -/
def buildDescribeJson (rt : JsonValue.Runtime) (reg : Registry) : Option Units :=
  let root := (JsonValue.object []).set nameKey (.string reg.moduleName)
  let root := root.set (Utf16.units "version".toList) (.string reg.moduleVersion)
  let reds := reg.reducerNames.foldlM (fun reds name =>
    (reg.reducers name).map fun entry => reds.push (handlerJson name entry.params)) (JsonValue.array [])
  reds.map fun reds =>
    let reds := reg.filterNames.foldl (fun reds name => reds.push (handlerJson name [Utf16.units "event".toList])) reds
    let root := root.set (Utf16.units "reducers".toList) reds
    let tabs := reg.declaredTables.foldl (fun tabs table => tabs.push (.string table)) (JsonValue.array [])
    (root.set (Utf16.units "tables".toList) tabs).toString rt

/-- The export `origindb_describe`, for the text it has put at `ptr` (`:857`). -/
def describeResult (ptr len : UInt32) : UInt64 := (ptr.toUInt64 <<< 32) ||| (len.toUInt64 &&& 0xffffffff)

/-! ## Texts -/

/-- It can be encoded. -/
def Text (u : Units) : Prop := Utf8 (Utf16.encode u) ∧ Utf16.decode (Utf16.encode u) = u

end Registry

open Registry in
def Registration.Texts : Registration → Prop
  | .info n v => Text n ∧ Text v
  | .table n => Text n
  | .reducer n _ params => Text n ∧ ∀ param ∈ params, Text param
  | .filter n _ => Text n

namespace Registry

structure Texts (reg : Registry) : Prop where
  reducerNames : ∀ name ∈ reg.reducerNames, Text name
  params : ∀ name entry, reg.reducers name = some entry → ∀ param ∈ entry.params, Text param
  filterNames : ∀ name ∈ reg.filterNames, Text name
  tables : ∀ table ∈ reg.declaredTables, Text table
  moduleName : Text reg.moduleName
  moduleVersion : Text reg.moduleVersion

theorem text_mem_registered {α : Type} {names : List Units} {handlers : Units → Option α} {name : Units} (h : ∀ n ∈ names, Text n)
    (hname : Text name) : ∀ n ∈ (if (handlers name).isNone then names ++ [name] else names), Text n := by
  intro n hn
  split at hn
  · rcases List.mem_append.1 hn with hn | hn
    · exact h n hn
    · rw [List.mem_singleton.1 hn]
      exact hname
  · exact h n hn

theorem Texts.register {reg : Registry} (h : reg.Texts) {r : Registration} (hr : r.Texts) : (reg.register r).Texts := by
  cases r with
  | info name version => exact { h with moduleName := hr.1, moduleVersion := hr.2 }
  | table table =>
    rw [Registry.register, declareTable]
    split
    · exact h
    · refine { h with tables := fun t ht => ?_ }
      rcases List.mem_append.1 ht with ht | ht
      · exact h.tables t ht
      · rw [List.mem_singleton.1 ht]
        exact hr
  | reducer name fn params =>
    refine { h with reducerNames := text_mem_registered h.reducerNames hr.1, params := fun n entry hentry => ?_ }
    rw [Registry.register, registerReducer] at hentry
    dsimp only at hentry
    by_cases hn : n = name
    · rw [hn, Function.update_self] at hentry
      cases hentry
      exact hr.2
    · rw [Function.update_of_ne hn] at hentry
      exact h.params n entry hentry
  | filter name fn => exact { h with filterNames := text_mem_registered h.filterNames hr }

theorem texts_ofRegistrations {registrations : List Registration} (h : ∀ r ∈ registrations, r.Texts) :
    (ofRegistrations registrations).Texts := by
  have hrun : ∀ (l : List Registration) (reg : Registry), reg.Texts → (∀ r ∈ l, r.Texts) → (l.foldl register reg).Texts := by
    intro l
    induction l with
    | nil => exact fun reg hreg _ => hreg
    | cons r l ih => exact fun reg hreg hl => ih _ (hreg.register (hl r (by simp))) fun r hr => hl r (List.mem_cons_of_mem _ hr)
  have hmodule : Text (Utf16.units "module".toList) ∧ Text (Utf16.units "1.0.0".toList) := by
    refine ⟨⟨?_, by decide⟩, ⟨?_, by decide⟩⟩
    · exact utf8_str "module"
    · exact utf8_str "1.0.0"
  exact hrun registrations {} ⟨by simp, by simp, by simp, by simp, hmodule.1, hmodule.2⟩ h

/-! ## The document -/

def textDoc (u : Units) : Json := .string (Utf16.encode u)

def handlerDoc (p : Units × List Units) : Json :=
  .object [(str "name", textDoc p.1), (str "params", .array (p.2.map textDoc))]

/-- The reducers and then the filters, with their parameters. -/
def handlers (reg : Registry) : List (Units × List Units) :=
  (reg.reducerNames.map fun name => (name, (reg.reducers name).elim [] ReducerEntry.params)) ++
    reg.filterNames.map fun name => (name, [Utf16.units "event".toList])

/-- The members of what is printed, in their order. -/
def describeMembers (reg : Registry) : List (Bytes × Json) :=
  [(str "name", textDoc reg.moduleName), (str "version", textDoc reg.moduleVersion),
    (str "reducers", .array (reg.handlers.map handlerDoc)), (str "tables", .array (reg.declaredTables.map textDoc))]

section
variable {rt : JsonValue.Runtime} {reg : Registry}

theorem guestElements_eq (l : List Json) : guestElements l = l.map guestValue := by
  induction l with
  | nil => rfl
  | cons j l ih => rw [guestElements, List.map_cons, ih]

theorem guestValue_textDoc {u : Units} (h : Text u) : guestValue (textDoc u) = .string u := by
  rw [textDoc, guestValue, h.2]

theorem guestElements_textDoc {l : List Units} (h : ∀ u ∈ l, Text u) : guestElements (l.map textDoc) = l.map .string := by
  rw [guestElements_eq, List.map_map]
  exact List.map_congr_left fun u hu => guestValue_textDoc (h u hu)

theorem foldl_push {α : Type} (f : α → JsonValue) (l : List α) (arr : List JsonValue) :
    l.foldl (fun v a => v.push (f a)) (JsonValue.array arr) = JsonValue.array (arr ++ l.map f) := by
  induction l generalizing arr with
  | nil => simp
  | cons a l ih => rw [List.foldl_cons, JsonValue.push, ih, List.map_cons, List.append_assoc, List.singleton_append]

theorem foldlM_push {names : List Units} {handlers : Units → Option ReducerEntry} (h : ∀ name ∈ names, (handlers name).isSome = true)
    (arr : List JsonValue) :
    names.foldlM (fun v name => (handlers name).map fun entry => v.push (handlerJson name entry.params)) (JsonValue.array arr) =
      some (JsonValue.array (arr ++ names.map fun name => handlerJson name ((handlers name).elim [] ReducerEntry.params))) := by
  induction names generalizing arr with
  | nil => simp
  | cons name names ih =>
    obtain ⟨entry, hentry⟩ := Option.isSome_iff_exists.1 (h name (by simp))
    rw [List.foldlM_cons, hentry, Option.map_some, JsonValue.push]
    show names.foldlM _ _ = _
    rw [ih fun n hn => h n (List.mem_cons_of_mem _ hn), List.map_cons, hentry, List.append_assoc, List.singleton_append]
    rfl

theorem decode_keys : Utf16.decode (str "name") = nameKey ∧ Utf16.decode (str "params") = paramsKey ∧
    Utf16.decode (str "version") = Utf16.units "version".toList ∧ Utf16.decode (str "reducers") = Utf16.units "reducers".toList ∧
    Utf16.decode (str "tables") = Utf16.units "tables".toList := by
  decide

theorem handlerJson_eq (name : Units) (params : List Units) :
    handlerJson name params = .object [(nameKey, .string name), (paramsKey, .array (params.map .string))] := by
  rw [handlerJson, paramsJson, foldl_push]
  rfl

theorem guestValue_handlerDoc {p : Units × List Units} (hname : Text p.1) (hparams : ∀ param ∈ p.2, Text param) :
    guestValue (handlerDoc p) = handlerJson p.1 p.2 := by
  obtain ⟨hkey, hparamsKey, -⟩ := decode_keys
  rw [handlerJson_eq, handlerDoc, guestValue, guestMembers, guestMembers, guestMembers, hkey, hparamsKey, guestValue_textDoc hname,
    guestValue, guestElements_textDoc hparams]

theorem texts_handlers (h : reg.Texts) : ∀ p ∈ reg.handlers, Text p.1 ∧ ∀ param ∈ p.2, Text param := by
  intro p hp
  rcases List.mem_append.1 hp with hp | hp
  · obtain ⟨name, hname, rfl⟩ := List.mem_map.1 hp
    refine ⟨h.reducerNames name hname, fun param hparam => ?_⟩
    cases hentry : reg.reducers name with
    | none => simp [hentry] at hparam
    | some entry =>
      rw [hentry, Option.elim_some] at hparam
      exact h.params name entry hentry param hparam
  · obtain ⟨name, hname, rfl⟩ := List.mem_map.1 hp
    refine ⟨h.filterNames name hname, fun param hparam => ?_⟩
    rw [List.mem_singleton.1 hparam]
    exact ⟨utf8_str "event", by decide⟩

/-- **What `origindb_describe` prints.** -/
theorem buildDescribeJson_eq (hinv : reg.Inv) (h : reg.Texts) :
    reg.buildDescribeJson rt = some ((guestValue (.object reg.describeMembers)).toString rt) := by
  obtain ⟨hname, -, hversion, hreducers, htables⟩ := decode_keys
  have hhandlers : guestElements (reg.handlers.map handlerDoc) = reg.handlers.map fun p => handlerJson p.1 p.2 := by
    rw [guestElements_eq, List.map_map]
    exact List.map_congr_left fun p hp => guestValue_handlerDoc (texts_handlers h p hp).1 (texts_handlers h p hp).2
  rw [buildDescribeJson, foldlM_push fun name hmem => (hinv.reducers name).1 hmem]
  rw [describeMembers, guestValue, guestMembers, guestMembers, guestMembers, guestMembers, guestMembers, hname, hversion, hreducers,
    htables, guestValue_textDoc h.moduleName, guestValue_textDoc h.moduleVersion, guestValue, guestValue, hhandlers,
    guestElements_textDoc h.tables]
  dsimp only [Option.map_some]
  rw [foldl_push, foldl_push, handlers, List.map_append, List.map_map, List.map_map]
  rfl

/-! ## The text -/

theorem compactElements_toString {l : List Json} (h : ∀ j ∈ l, Compact j ((guestValue j).toString rt)) :
    CompactElements l (JsonValue.elementsToString rt (guestElements l)) := by
  induction l with
  | nil => rw [guestElements, CompactElements, JsonValue.elementsToString]
  | cons j l ih =>
    have hj := h j (by simp)
    cases l with
    | nil =>
      rw [guestElements, guestElements, CompactElements, JsonValue.elementsToString]
      exact hj
    | cons i l =>
      have hrest := ih fun k hk => h k (List.mem_cons_of_mem _ hk)
      rw [guestElements] at hrest
      rw [guestElements, guestElements]
      exact compactElements_cons.2 ⟨_, _, hj, hrest, JsonValue.elementsToString_cons rt _ _ _⟩

theorem compactMembers_toString {m : List (Bytes × Json)} (h : ∀ p ∈ m, Utf8 p.1 ∧ Compact p.2 ((guestValue p.2).toString rt)) :
    CompactMembers m (JsonValue.membersToString rt (guestMembers m)) := by
  induction m with
  | nil => rw [guestMembers, CompactMembers, JsonValue.membersToString]
  | cons p m ih =>
    obtain ⟨k, j⟩ := p
    obtain ⟨hk, hj⟩ := h (k, j) (by simp)
    cases m with
    | nil =>
      rw [guestMembers, guestMembers, CompactMembers, JsonValue.membersToString]
      exact ⟨_, _, ⟨hk, JsonValue.str_quote _⟩, hj, rfl⟩
    | cons q m =>
      have hrest := ih fun p hp => h p (List.mem_cons_of_mem _ hp)
      rw [guestMembers] at hrest
      rw [guestMembers, guestMembers]
      exact compactMembers_cons.2 ⟨_, _, _, ⟨hk, JsonValue.str_quote _⟩, hj, hrest, JsonValue.membersToString_cons rt _ _ _ _⟩

theorem compact_array {l : List Json} (h : ∀ j ∈ l, Compact j ((guestValue j).toString rt)) :
    Compact (.array l) ((guestValue (.array l)).toString rt) := by
  rw [guestValue, Compact, JsonValue.toString]
  exact ⟨_, compactElements_toString h, rfl⟩

theorem compact_object {m : List (Bytes × Json)} (hnodup : (m.map Prod.fst).Nodup)
    (h : ∀ p ∈ m, Utf8 p.1 ∧ Compact p.2 ((guestValue p.2).toString rt)) : Compact (.object m) ((guestValue (.object m)).toString rt) := by
  rw [guestValue, Compact, JsonValue.toString]
  exact ⟨hnodup, _, compactMembers_toString h, rfl⟩

theorem compact_textDoc {u : Units} (h : Text u) : Compact (textDoc u) ((guestValue (textDoc u)).toString rt) := by
  rw [textDoc, guestValue, Compact, JsonValue.toString]
  exact ⟨h.1, JsonValue.str_quote _⟩

theorem compact_textDocs {l : List Units} (h : ∀ u ∈ l, Text u) :
    Compact (.array (l.map textDoc)) ((guestValue (.array (l.map textDoc))).toString rt) := by
  refine compact_array fun j hj => ?_
  obtain ⟨u, hu, rfl⟩ := List.mem_map.1 hj
  exact compact_textDoc (h u hu)

theorem compact_handlerDoc {p : Units × List Units} (hname : Text p.1) (hparams : ∀ param ∈ p.2, Text param) :
    Compact (handlerDoc p) ((guestValue (handlerDoc p)).toString rt) := by
  refine compact_object (show [str "name", str "params"].Nodup by decide) fun q hq => ?_
  simp only [List.mem_cons, List.not_mem_nil, or_false] at hq
  obtain rfl | rfl := hq
  · exact ⟨utf8_str _, compact_textDoc hname⟩
  · exact ⟨utf8_str _, compact_textDocs hparams⟩

theorem nodup_describeMembers (reg : Registry) : (reg.describeMembers.map Prod.fst).Nodup :=
  show [str "name", str "version", str "reducers", str "tables"].Nodup by decide

theorem compact_describe (h : reg.Texts) :
    Compact (.object reg.describeMembers) ((guestValue (.object reg.describeMembers)).toString rt) := by
  refine compact_object (nodup_describeMembers reg) fun q hq => ?_
  simp only [describeMembers, List.mem_cons, List.not_mem_nil, or_false] at hq
  obtain rfl | rfl | rfl | rfl := hq
  · exact ⟨utf8_str _, compact_textDoc h.moduleName⟩
  · exact ⟨utf8_str _, compact_textDoc h.moduleVersion⟩
  · refine ⟨utf8_str _, compact_array fun j hj => ?_⟩
    obtain ⟨p, hp, rfl⟩ := List.mem_map.1 hj
    exact compact_handlerDoc (texts_handlers h p hp).1 (texts_handlers h p hp).2
  · exact ⟨utf8_str _, compact_textDocs h.tables⟩

/-! ## The metadata -/

theorem toNat_describeResult (ptr len : UInt32) : (describeResult ptr len).toNat = ptr.toNat * 2 ^ 32 + len.toNat := by
  have hptr := ptr.toNat_lt
  have hlen := len.toNat_lt
  have hlow : (len.toUInt64 &&& 0xffffffff).toNat = len.toNat := by
    rw [UInt64.toNat_and]
    show len.toNat &&& (2 ^ 32 - 1) = _
    rw [Nat.and_two_pow_sub_one_eq_mod, Nat.mod_eq_of_lt hlen]
  have hhigh : (ptr.toUInt64 <<< 32).toNat = ptr.toNat <<< 32 := by
    rw [UInt64.toNat_shiftLeft]
    show ptr.toNat <<< 32 % 2 ^ 64 = _
    rw [Nat.mod_eq_of_lt (by rw [Nat.shiftLeft_eq]; omega)]
  rw [describeResult, UInt64.toNat_or, hlow, hhigh, Nat.shiftLeft_eq, Nat.mul_comm, ← Nat.two_pow_add_eq_or_of_lt hlen]

theorem describedBlob_describeResult {m : Memory} {ptr len : UInt32} (h : ptr.toNat + len.toNat ≤ m.length) :
    describedBlob m (describeResult ptr len) = some (slice m ptr.toNat len.toNat) := by
  have hptr := ptr.toNat_lt
  have hlen := len.toNat_lt
  have hhigh : (describeResult ptr len >>> 32).toUInt32 = ptr := by
    rw [← UInt32.toNat_inj, UInt64.toNat_toUInt32, UInt64.toNat_shiftRight, toNat_describeResult]
    show (_ >>> 32) % 2 ^ 32 = _
    rw [Nat.shiftRight_eq_div_pow]
    omega
  have hlow : (describeResult ptr len).toUInt32 = len := by
    rw [← UInt32.toNat_inj, UInt64.toNat_toUInt32, toNat_describeResult]
    omega
  rw [describedBlob, hhigh, hlow]
  exact if_neg (Nat.not_lt.2 h)

/-- What the host makes of a handler. -/
def handlerDef (p : Units × List Units) : ReducerDef := .named (Utf16.encode p.1) (p.2.map Utf16.encode)

theorem reducerDef_handlerDoc (p : Units × List Units) : reducerDef (handlerDoc p) = some (some (handlerDef p)) := by
  have hparams : paramTypes (handlerDoc p) = p.2.map Utf16.encode := by
    show (p.2.map textDoc).map paramType = _
    rw [List.map_map]
    rfl
  show some (some (ReducerDef.named (Utf16.encode p.1) (paramTypes (handlerDoc p)))) = _
  rw [hparams]
  rfl

theorem readMetadata_describe {members : List (Bytes × Json)} (h : members.Perm reg.describeMembers) (version : Bytes) :
    readMetadata (.object members) { version := version } =
      some { version := if version = [] then Utf16.encode reg.moduleVersion else version, reducers := reg.handlers.map handlerDef } := by
  have hdistinct : Distinct members := Distinct.perm (nodup_describeMembers reg) h
  have hversion : members.lookup (str "version") = some (textDoc reg.moduleVersion) :=
    lookup_of_mem hdistinct (h.mem_iff.2 (by simp [describeMembers]))
  have hreducers : members.lookup (str "reducers") = some (.array (reg.handlers.map handlerDoc)) :=
    lookup_of_mem hdistinct (h.mem_iff.2 (by simp [describeMembers]))
  have hdefs : ∀ l : List (Units × List Units), (l.map handlerDoc).mapM reducerDef = some (l.map fun p => some (handlerDef p)) := by
    intro l
    induction l with
    | nil => rfl
    | cons p l ih =>
      rw [List.map_cons, List.mapM_cons, reducerDef_handlerDoc, ih]
      rfl
  rw [readMetadata, Json.constMember, Json.constMember, hversion, hreducers, textDoc]
  dsimp only
  rw [hdefs, Option.map_some, List.reduceOption, List.filterMap_map, List.nil_append]
  congr 2
  simp

/-- The names that are listed are those that have a handler. -/
theorem mem_handlers_iff (hinv : reg.Inv) (h : reg.Texts) {name : Bytes} (hname : Utf8 name) :
    (∃ d ∈ reg.handlers.map handlerDef, d.name = name) ↔
      (reg.reducers (Utf16.decode name)).isSome = true ∨ (reg.filters (Utf16.decode name)).isSome = true := by
  rw [← hinv.reducers, ← hinv.filters]
  constructor
  · rintro ⟨d, hd, hdname⟩
    obtain ⟨p, hp, rfl⟩ := List.mem_map.1 hd
    have hsame : Utf16.decode name = p.1 := by
      rw [← hdname]
      exact (texts_handlers h p hp).1.2
    rw [hsame]
    rcases List.mem_append.1 hp with hp | hp
    · obtain ⟨n, hn, rfl⟩ := List.mem_map.1 hp
      exact .inl hn
    · obtain ⟨n, hn, rfl⟩ := List.mem_map.1 hp
      exact .inr hn
  · rintro (hn | hn)
    · exact ⟨_, List.mem_map_of_mem (List.mem_append_left _ (List.mem_map_of_mem hn)), Utf16.encode_decode hname⟩
    · exact ⟨_, List.mem_map_of_mem (List.mem_append_right _ (List.mem_map_of_mem hn)), Utf16.encode_decode hname⟩

/-- The reducers and then the filters, each name once and with what it has been registered with last. -/
def Lists (registrations : List Registration) (defs : List ReducerDef) : Prop :=
  ∃ (reducers : List (Units × ReducerEntry)) (filters : List Units),
    defs = (reducers.map fun p => .named (Utf16.encode p.1) (p.2.params.map Utf16.encode)) ++
      filters.map (fun name => .named (Utf16.encode name) [str "event"]) ∧
    (reducers.map fun p => Utf16.encode p.1).Nodup ∧ (filters.map Utf16.encode).Nodup ∧
    (∀ p ∈ reducers, lastReducer p.1 registrations = some p.2) ∧ ∀ name ∈ filters, (lastFilter name registrations).isSome = true

/-- Texts that are encoded alike are the same. -/
theorem nodup_encode {names : List Units} (hnodup : names.Nodup) (h : ∀ name ∈ names, Text name) : (names.map Utf16.encode).Nodup := by
  refine List.Nodup.map_on (fun a ha b hb hab => ?_) hnodup
  rw [← (h a ha).2, hab, (h b hb).2]

theorem exists_entries {names : List Units} {handlers : Units → Option ReducerEntry}
    (h : ∀ name ∈ names, (handlers name).isSome = true) :
    ∃ entries : List (Units × ReducerEntry), entries.map Prod.fst = names ∧ ∀ p ∈ entries, handlers p.1 = some p.2 := by
  induction names with
  | nil => exact ⟨[], rfl, by simp⟩
  | cons name names ih =>
    obtain ⟨entry, hentry⟩ := Option.isSome_iff_exists.1 (h name (by simp))
    obtain ⟨entries, hnames, hentries⟩ := ih fun n hn => h n (List.mem_cons_of_mem _ hn)
    refine ⟨(name, entry) :: entries, by rw [List.map_cons, hnames], fun p hp => ?_⟩
    rcases List.mem_cons.1 hp with rfl | hp
    · exact hentry
    · exact hentries p hp

theorem lists_handlers {registrations : List Registration} (h : (ofRegistrations registrations).Texts) :
    Lists registrations ((ofRegistrations registrations).handlers.map handlerDef) := by
  have hinv := inv_ofRegistrations registrations
  obtain ⟨entries, hnames, hentries⟩ := exists_entries fun name hname => (hinv.reducers name).1 hname
  refine ⟨entries, (ofRegistrations registrations).filterNames, ?_, ?_, nodup_encode hinv.filterNames h.filterNames, fun p hp => ?_,
    fun name hname => ?_⟩
  · have hreducers : (entries.map fun p => ReducerDef.named (Utf16.encode p.1) (p.2.params.map Utf16.encode)) =
        (ofRegistrations registrations).reducerNames.map fun name =>
          handlerDef (name, ((ofRegistrations registrations).reducers name).elim [] ReducerEntry.params) := by
      rw [← hnames, List.map_map]
      refine List.map_congr_left fun p hp => ?_
      simp [handlerDef, hentries p hp]
    rw [hreducers, handlers, List.map_append, List.map_map, List.map_map]
    rfl
  · have hmap : (entries.map fun p => Utf16.encode p.1) = (entries.map Prod.fst).map Utf16.encode := by
      rw [List.map_map]
      rfl
    rw [hmap, hnames]
    exact nodup_encode hinv.reducerNames h.reducerNames
  · rw [← reducers_ofRegistrations]
    exact hentries p hp
  · rw [← filters_ofRegistrations]
    exact (hinv.filters name).1 hname

end

end Registry

/-- A parser that keeps the members of an object in an order of its own reads the text as the object. -/
def ReadsObject (J : JsonLib) (m : List (Bytes × Json)) (text : Units) : Prop :=
  Compact (.object m) text → ∃ members, J.parse (Utf16.encode text) = some (.object members) ∧ members.Perm m

/-- **The metadata of a module is its registry.** Whatever a module has registered in names that can be encoded, and in whichever order,
its metadata lists the reducers and then the filters, each name once and with what it has been registered with last, and it takes the
registered version when none is given. So a name is listed exactly when a call finds a handler for it. -/
theorem describe_lists_handlers (J : JsonLib) (rt : JsonValue.Runtime) (registrations : List Registration)
    (htexts : ∀ r ∈ registrations, r.Texts) : ∃ text, (Registry.ofRegistrations registrations).buildDescribeJson rt = some text ∧
      ∀ (m : Memory) (ptr len : UInt32) (version : Bytes), ReadsObject J (Registry.ofRegistrations registrations).describeMembers text →
        (Utf16.encode text).length = len.toNat → ptr.toNat + len.toNat ≤ m.length → slice m ptr.toNat len.toNat = Utf16.encode text →
        ∃ metadata, extractMetadata J m (some (Registry.describeResult ptr len)) { version := version } = some metadata ∧
          metadata.version =
            (if version = [] then Utf16.encode (Registry.ofRegistrations registrations).moduleVersion else version) ∧
          metadata.reducers = (Registry.ofRegistrations registrations).handlers.map Registry.handlerDef ∧
          Registry.Lists registrations metadata.reducers ∧
          ∀ name, Utf8 name → ((∃ d ∈ metadata.reducers, d.name = name) ↔
            (Registry.lastReducer (Utf16.decode name) registrations).isSome = true ∨
            (Registry.lastFilter (Utf16.decode name) registrations).isSome = true) := by
  have hinv := Registry.inv_ofRegistrations registrations
  have htext := Registry.texts_ofRegistrations htexts
  refine ⟨_, Registry.buildDescribeJson_eq hinv htext, fun m ptr len version hreads hlen hfits hthere => ?_⟩
  obtain ⟨members, hparse, hperm⟩ := hreads (Registry.compact_describe htext)
  have hmetadata := Registry.readMetadata_describe hperm version
  refine ⟨_, Eq.trans ?_ hmetadata, rfl, rfl, Registry.lists_handlers htext, fun name hname => ?_⟩
  · rw [extractMetadata, Option.bind_some, Registry.describedBlob_describeResult hfits, Option.bind_some, hthere, hparse]
  · rw [Registry.mem_handlers_iff hinv htext hname, Registry.reducers_ofRegistrations, Registry.filters_ofRegistrations]

/-! ## A module -/

/-- A reducer, and a filter that comes before it. -/
def twoHandlers : List Registration :=
  [.filter (Utf16.units "f".toList) (fun _ => pure true), .reducer (Utf16.units "r".toList) (fun _ => pure none) [Utf16.units "p".toList]]

/-- The members in the order of their names. -/
def twoMembers : List (Bytes × Json) := [(str "name", .string (str "module")), (str "reducers", .array [
  .object [(str "name", .string (str "r")), (str "params", .array [.string (str "p")])],
  .object [(str "name", .string (str "f")), (str "params", .array [.string (str "event")])]]),
  (str "tables", .array []), (str "version", .string (str "1.0.0"))]

def twoDoc : Json := .object twoMembers

def twoText : Bytes := str
  "\x7b\"name\":\"module\",\"version\":\"1.0.0\",\"reducers\":[\x7b\"name\":\"r\",\"params\":[\"p\"]\x7d,\x7b\"name\":\"f\",\"params\":[\"event\"]\x7d],\"tables\":[]\x7d"

theorem twoDoc_evaluated :
    (∀ d ∈ [(twoDoc, twoText)], d.2 ≠ [] ∧ d.2.head? ≠ some 35 ∧ parseTable [(twoDoc, twoText)] d.2 = some d.1.reparsed) ∧
    parseTable [(twoDoc, twoText)] twoText = some (.object twoMembers) ∧
    ((Registry.ofRegistrations twoHandlers).buildDescribeJson half).map Utf16.encode = some twoText ∧
    twoText.length < 1000 ∧ twoMembers.Perm (Registry.ofRegistrations twoHandlers).describeMembers ∧
    (∀ u ∈ [Utf16.units "f".toList, Utf16.units "r".toList, Utf16.units "p".toList], Utf16.decode (Utf16.encode u) = u) ∧
    (Registry.ofRegistrations twoHandlers).handlers.map Registry.handlerDef =
      [.named (str "r") [str "p"], .named (str "f") [str "event"]] := by
  decide +kernel

theorem describe_lists_handlers_two : ∃ metadata, extractMetadata (JsonLib.extended [(twoDoc, twoText)] twoDoc_evaluated.1) (0 :: twoText)
    (some (Registry.describeResult 1 (UInt32.ofNat twoText.length))) {} = some metadata ∧
      metadata.reducers = [.named (str "r") [str "p"], .named (str "f") [str "event"]] := by
  obtain ⟨hdocs, hparse, htext, hlength, hperm, hnames, hdefs⟩ := twoDoc_evaluated
  have htexts : ∀ r ∈ twoHandlers, r.Texts := by
    intro r hr
    simp only [twoHandlers, List.mem_cons, List.not_mem_nil, or_false] at hr
    obtain rfl | rfl := hr
    · exact ⟨utf8_str "f", hnames _ (by simp)⟩
    · refine ⟨⟨utf8_str "r", hnames _ (by simp)⟩, fun param hparam => ?_⟩
      rw [List.mem_singleton.1 hparam]
      exact ⟨utf8_str "p", hnames _ (by simp)⟩
  obtain ⟨text, hdescribe, hall⟩ := describe_lists_handlers (.extended [(twoDoc, twoText)] hdocs) half twoHandlers htexts
  rw [hdescribe, Option.map_some, Option.some_inj] at htext
  have hlen : (UInt32.ofNat twoText.length).toNat = twoText.length := UInt32.toNat_ofNat_of_lt' (hlength.trans (by decide))
  have hreads : ReadsObject (.extended [(twoDoc, twoText)] hdocs) (Registry.ofRegistrations twoHandlers).describeMembers text := by
    intro _
    rw [htext]
    exact ⟨twoMembers, JsonLib.parse_extended hdocs hparse, hperm⟩
  have hplace : ∀ (l : Bytes) (len : UInt32), len.toNat = l.length →
      (1 : UInt32).toNat + len.toNat ≤ (0 :: l).length ∧ slice (0 :: l) (1 : UInt32).toNat len.toNat = l := by
    intro l len h
    rw [h]
    exact ⟨(Nat.add_comm 1 l.length).le, List.take_length⟩
  obtain ⟨hfits, hthere⟩ := hplace twoText _ hlen
  obtain ⟨metadata, hextract, -, hreducers, -⟩ := hall (0 :: twoText) 1 (UInt32.ofNat twoText.length) [] hreads
    (by rw [htext, hlen]) hfits (by rw [htext, hthere])
  exact ⟨metadata, hextract, hreducers.trans hdefs⟩

end OriginDB.Sdk
