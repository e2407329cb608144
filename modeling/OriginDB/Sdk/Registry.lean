import Mathlib.Logic.Function.Basic
import OriginDB.Sdk.Base64
import OriginDB.Sdk.HostTexts
import OriginDB.Sdk.JsonAccess
import OriginDB.Wasm.HostCalls
/-!
# The registry of a module and its dispatcher (`src/sdk/typescript/assembly/index.ts:597-899`)

A module registers its reducers and filters while it is instantiated, and `origindb_invoke` looks the handler of a call up by
its name: among the reducers, and then among the filters. So a reducer hides a filter of its name. A name that is registered
again keeps its place in the list of names and gets the later handler.

| here | there |
| --- | --- |
| `Script`                    | what AssemblyScript code does until it ends with a value |
| `Registry`, `Registration`  | the module's state (`:750-755`) and the four functions that change it (`:757-788`) |
| `Registry.handle`           | `origindb_invoke` (`:869`) from the arguments on |
| `Registry.invoke`           | `origindb_invoke`, its name and its arguments as texts |

Log messages are left out. An object that a handler changes after it has returned is not modelled: values are not shared.
-/
namespace OriginDB.Sdk

open JsonDoc JsonGrammar ByteCodec JsonParser Wasm

/-! ## Code of a module -/

/-- The host functions that are called on the way to a value, given what is done with the value. -/
def Script (α : Type) : Type := (α → Guest) → Guest

namespace Script

instance : Monad Script where
  pure a := fun k => k a
  bind script f := fun k => script fun a => f a k

/-- What the script does, and then a status. -/
def andThen {α : Type} (script : Script α) (k : α → Guest) : Guest := script k

@[simp] theorem pure_andThen {α : Type} (a : α) (k : α → Guest) : (pure a : Script α).andThen k = k a := rfl

@[simp] theorem bind_andThen {α β : Type} (script : Script α) (f : α → Script β) (k : β → Guest) :
    (script >>= f).andThen k = script.andThen fun a => (f a).andThen k := rfl

end Script

/-- The most that `host_set_result` takes (wasm_runtime_internal.h:36). -/
def maxResult : Nat := 16 * 1024 * 1024

/-- `setResult` (`:640`). -/
def setResult (json : Units) : Script Unit := fun k =>
  let payload := Utf16.encode json
  if maxResult < payload.length then .traps (str "host_set_result: payload exceeds 16MiB cap") else .setResult payload (k ())

/-! ## Bytes in JSON -/

/-- `bytesArg` (`:719`): the bytes, or `null`; `none` is the exception of `base64Decode`. -/
def bytesArg (value : JsonValue) : Option (Option Bytes) :=
  let key := Utf16.units "$bytes".toList
  if value.has key then (base64Decode (value.get key).asString).map some else some none

/-! ## Registering -/

abbrev ReducerFn := List JsonValue → Script (Option JsonValue)

abbrev FilterFn := JsonValue → Script Bool

structure ReducerEntry where
  fn : ReducerFn
  params : List Units

structure Registry where
  reducerNames : List Units := []
  reducers : Units → Option ReducerEntry := fun _ => none
  filterNames : List Units := []
  filters : Units → Option FilterFn := fun _ => none
  declaredTables : List Units := []
  moduleName : Units := Utf16.units "module".toList
  moduleVersion : Units := Utf16.units "1.0.0".toList

namespace Registry

/-- `setModuleInfo` (`:758`). -/
def setModuleInfo (reg : Registry) (name version : Units) : Registry :=
  { reg with moduleName := name, moduleVersion := version }

/-- `declareTable` (`:764`). -/
def declareTable (reg : Registry) (table : Units) : Registry :=
  if reg.declaredTables.contains table then reg else { reg with declaredTables := reg.declaredTables ++ [table] }

/-- `registerReducer` (`:775`). -/
def registerReducer (reg : Registry) (name : Units) (fn : ReducerFn) (params : List Units) : Registry :=
  { reg with
    reducerNames := if (reg.reducers name).isNone then reg.reducerNames ++ [name] else reg.reducerNames
    reducers := Function.update reg.reducers name (some { fn := fn, params := params }) }

/-- `registerFilter` (`:786`). -/
def registerFilter (reg : Registry) (name : Units) (fn : FilterFn) : Registry :=
  { reg with
    filterNames := if (reg.filters name).isNone then reg.filterNames ++ [name] else reg.filterNames
    filters := Function.update reg.filters name (some fn) }

end Registry

inductive Registration where
  | info (name version : Units)
  | table (table : Units)
  | reducer (name : Units) (fn : ReducerFn) (params : List Units)
  | filter (name : Units) (fn : FilterFn)

namespace Registry

def register (reg : Registry) : Registration → Registry
  | .info name version => reg.setModuleInfo name version
  | .table table => reg.declareTable table
  | .reducer name fn params => reg.registerReducer name fn params
  | .filter name fn => reg.registerFilter name fn

/-- The registry when a module is instantiated. -/
def ofRegistrations (registrations : List Registration) : Registry := registrations.foldl register {}

/-! ## Dispatching -/

/-- `unwrapEvent` (`:826`). -/
def unwrapEvent : List JsonValue → JsonValue
  | [] => .null
  | .string s :: _ =>
    match tryParse s with
    | .ok inner => inner
    | .error _ => .string s
  | first :: _ => first

/-- The value a reducer returns, as the result of the call (`:884-885`). -/
def reply (rt : JsonValue.Runtime) : Option JsonValue → Guest
  | some result => (setResult (result.toString rt)).andThen fun _ => .returns 0
  | none => .returns 0

/-- The answer of a filter (`:893`). -/
def verdict (includes : Bool) : Guest := .returns (if includes then 1 else 0)

/-- What is done with the arguments of a call. -/
def handle (rt : JsonValue.Runtime) (reg : Registry) (name : Units) (args : List JsonValue) : Guest :=
  match reg.reducers name, reg.filters name with
  | some entry, _ => (entry.fn args).andThen (reply rt)
  | none, some fn => (fn (unwrapEvent args)).andThen verdict
  | none, none => .returns errNoHandler

/-- The arguments in a text; none where it is no array. -/
def parsedArgs (argsJson : Units) : List JsonValue :=
  match tryParse argsJson with
  | .ok (.array arr) => arr
  | _ => []

def invoke (rt : JsonValue.Runtime) (reg : Registry) (name argsJson : Units) : Guest := reg.handle rt name (parsedArgs argsJson)

/-! ## What a registry holds -/

/-- The names are those that have a handler, each of them once. -/
structure Inv (reg : Registry) : Prop where
  reducerNames : reg.reducerNames.Nodup
  reducers : ∀ name, name ∈ reg.reducerNames ↔ (reg.reducers name).isSome = true
  filterNames : reg.filterNames.Nodup
  filters : ∀ name, name ∈ reg.filterNames ↔ (reg.filters name).isSome = true
  declaredTables : reg.declaredTables.Nodup

section
variable {α : Type} {names : List Units} {handlers : Units → Option α} {name : Units}

theorem nodup_registered (hnodup : names.Nodup) (hnames : ∀ n, n ∈ names ↔ (handlers n).isSome = true) :
    (if (handlers name).isNone then names ++ [name] else names).Nodup := by
  split
  · rename_i hnone
    refine List.Nodup.append hnodup (List.nodup_singleton name) (List.disjoint_singleton.2 fun hmem => ?_)
    rw [hnames, Option.isSome_iff_ne_none] at hmem
    exact hmem (Option.isNone_iff_eq_none.1 hnone)
  · exact hnodup

theorem mem_registered (hnames : ∀ n, n ∈ names ↔ (handlers n).isSome = true) (a : α) (n : Units) :
    n ∈ (if (handlers name).isNone then names ++ [name] else names) ↔ (Function.update handlers name (some a) n).isSome = true := by
  by_cases hn : n = name
  · subst hn
    rw [Function.update_self]
    split
    · simp
    · rename_i hsome
      simpa [hnames, Option.isSome_iff_ne_none] using hsome
  · rw [Function.update_of_ne hn, ← hnames]
    split
    · simp [hn]
    · rfl

end

theorem Inv.register {reg : Registry} (h : reg.Inv) (r : Registration) : (reg.register r).Inv := by
  cases r with
  | info name version => exact ⟨h.reducerNames, h.reducers, h.filterNames, h.filters, h.declaredTables⟩
  | table table =>
    rw [Registry.register, declareTable]
    split
    · exact h
    · rename_i hnew
      refine ⟨h.reducerNames, h.reducers, h.filterNames, h.filters, ?_⟩
      exact List.Nodup.append h.declaredTables (List.nodup_singleton table) (List.disjoint_singleton.2 (by simpa using hnew))
  | reducer name fn params =>
    exact ⟨nodup_registered h.reducerNames h.reducers, mem_registered h.reducers _, h.filterNames, h.filters, h.declaredTables⟩
  | filter name fn =>
    exact ⟨h.reducerNames, h.reducers, nodup_registered h.filterNames h.filters, mem_registered h.filters _, h.declaredTables⟩

/-- **Whatever a module registers, and in which order.** -/
theorem inv_ofRegistrations (registrations : List Registration) : (ofRegistrations registrations).Inv := by
  have hrun : ∀ (l : List Registration) (reg : Registry), reg.Inv → (l.foldl register reg).Inv := by
    intro l
    induction l with
    | nil => exact fun reg h => h
    | cons r l ih => exact fun reg h => ih _ (h.register r)
  exact hrun registrations {} ⟨List.nodup_nil, by simp, List.nodup_nil, by simp, List.nodup_nil⟩

/-! ### The handler of a name -/

/-- The reducer that has been registered last under a name. -/
def lastReducer (name : Units) : List Registration → Option ReducerEntry
  | [] => none
  | .reducer n fn params :: rest => (lastReducer name rest).or (if n = name then some { fn := fn, params := params } else none)
  | _ :: rest => lastReducer name rest

def lastFilter (name : Units) : List Registration → Option FilterFn
  | [] => none
  | .filter n fn :: rest => (lastFilter name rest).or (if n = name then some fn else none)
  | _ :: rest => lastFilter name rest

theorem reducers_foldl (name : Units) (l : List Registration) (reg : Registry) :
    (l.foldl register reg).reducers name = (lastReducer name l).or (reg.reducers name) := by
  induction l generalizing reg with
  | nil => rfl
  | cons r l ih =>
    rw [List.foldl_cons, ih]
    cases r with
    | reducer n fn params =>
      rw [register, registerReducer, lastReducer, Option.or_assoc]
      dsimp only
      by_cases hn : n = name
      · subst hn
        rw [if_pos rfl, Function.update_self, Option.some_or]
      · rw [if_neg hn, Function.update_of_ne (Ne.symm hn), Option.none_or]
    | table table =>
      have hkept : (reg.declareTable table).reducers name = reg.reducers name := by
        rw [declareTable]
        split <;> rfl
      exact congrArg (lastReducer name l).or hkept
    | info name version => rfl
    | filter n fn => rfl

theorem filters_foldl (name : Units) (l : List Registration) (reg : Registry) :
    (l.foldl register reg).filters name = (lastFilter name l).or (reg.filters name) := by
  induction l generalizing reg with
  | nil => rfl
  | cons r l ih =>
    rw [List.foldl_cons, ih]
    cases r with
    | filter n fn =>
      rw [register, registerFilter, lastFilter, Option.or_assoc]
      dsimp only
      by_cases hn : n = name
      · subst hn
        rw [if_pos rfl, Function.update_self, Option.some_or]
      · rw [if_neg hn, Function.update_of_ne (Ne.symm hn), Option.none_or]
    | table table =>
      have hkept : (reg.declareTable table).filters name = reg.filters name := by
        rw [declareTable]
        split <;> rfl
      exact congrArg (lastFilter name l).or hkept
    | info name version => rfl
    | reducer n fn params => rfl

theorem reducers_ofRegistrations (registrations : List Registration) (name : Units) :
    (ofRegistrations registrations).reducers name = lastReducer name registrations := by
  rw [ofRegistrations, reducers_foldl, Option.or_none]

theorem filters_ofRegistrations (registrations : List Registration) (name : Units) :
    (ofRegistrations registrations).filters name = lastFilter name registrations := by
  rw [ofRegistrations, filters_foldl, Option.or_none]

/-- **The handler registered last is the one that is called**; a reducer goes before a filter. -/
theorem handle_ofRegistrations (rt : JsonValue.Runtime) (registrations : List Registration) (name : Units) (args : List JsonValue) :
    (∀ entry, lastReducer name registrations = some entry →
      (ofRegistrations registrations).handle rt name args = (entry.fn args).andThen (reply rt)) ∧
    (lastReducer name registrations = none → ∀ fn, lastFilter name registrations = some fn →
      (ofRegistrations registrations).handle rt name args = (fn (unwrapEvent args)).andThen verdict) ∧
    (lastReducer name registrations = none → lastFilter name registrations = none →
      (ofRegistrations registrations).handle rt name args = .returns errNoHandler) := by
  have hreducers := reducers_ofRegistrations registrations name
  have hfilters := filters_ofRegistrations registrations name
  refine ⟨fun entry hentry => ?_, fun hnone fn hfn => ?_, fun hnone hnoFilter => ?_⟩
  · rw [handle, hreducers, hentry]
  · rw [handle, hreducers, hfilters, hnone, hfn]
  · rw [handle, hreducers, hfilters, hnone, hnoFilter]

end Registry

end OriginDB.Sdk
