import OriginDB.Wasm.Deploy
/-!
# What a module may import (`wasm_engine.cpp:22-33, 389-534`, `host_functions.cpp:485-523`)

A module is compiled, its imports are held against the ones that the server offers and its exports against the ones that it needs,
and it is instantiated. What is deployed and what a boot finds on the disk goes the same way.

| here | there |
| --- | --- |
| `checkImports`, `checkExports` | the two loops of `Compile` (`:402-411`, `:422-431`) |
| `registerHostFunctions`        | `RegisterHostFunctions` (`host_functions.cpp:486`) |
| `instantiate`                  | `Instantiate` (`:435`) |
| `resolveExports`               | `ResolveExports` (`:504`) |

What wasmtime says of a bytecode is given from outside (`moduleNew`), and how it answers while a module is instantiated comes with the
load (`InstantiateIo`). The version that `origindb_describe` gives is `described` there.
-/
namespace OriginDB.Wasm

open JsonDoc ByteCodec Machine

/-- `wasmtime_module_imports` and `wasmtime_module_exports`. -/
structure ModuleTypes where
  imports : List (Bytes × Bytes)
  exports : List Bytes
deriving DecidableEq

/-- `wasmtime_extern_t`, by its kind. -/
inductive ExternKind where
  | func
  | memory
  | other
deriving DecidableEq

/-- How wasmtime answers while a module is instantiated: an error or a trap, if there is one. -/
structure InstantiateIo where
  setWasi : Option Bytes := none
  defineWasi : Option Bytes := none
  defineFunc : Bytes → Option Bytes := fun _ => none
  linkerInstantiate : Option Bytes := none
  exportGet : Bytes → Option ExternKind
  fnInitialize : Option Bytes := none
  described : Option Bytes := none

def kRequiredExports : List Bytes := [str "memory", str "origindb_invoke", str "origindb_alloc"]

def kKnownEnvImports : List Bytes :=
  [str "host_table_read", str "host_table_write", str "host_table_delete", str "host_table_scan", str "host_emit_event",
    str "host_now_ms", str "host_generate_id", str "host_log", str "host_abort", str "host_alloc", str "host_free",
    str "host_set_result", str "host_sender"]

/-- The functions that `RegisterHostFunctions` defines in `env`, in its order. -/
def hostFunctionNames : List Bytes :=
  [str "host_table_read", str "host_table_write", str "host_table_delete", str "host_table_scan", str "host_emit_event",
    str "host_now_ms", str "host_generate_id", str "host_log", str "host_abort", str "host_alloc", str "host_free",
    str "host_set_result", str "host_sender"]

def allowed (i : Bytes × Bytes) : Bool := i.1 = str "wasi_snapshot_preview1" || i.1 = str "env" && kKnownEnvImports.contains i.2

def disallowed (i : Bytes × Bytes) : Bytes := str "disallowed import: " ++ i.1 ++ str "." ++ i.2

def checkImports : List (Bytes × Bytes) → Except Bytes Unit
  | [] => .ok ()
  | i :: rest => if allowed i then checkImports rest else .error (disallowed i)

def checkExports (exports : List Bytes) : List Bytes → Except Bytes Unit
  | [] => .ok ()
  | required :: rest =>
    if exports.contains required then checkExports exports rest else .error (str "missing required export: " ++ required)

/-- `Compile` (`:389`). -/
def compile (moduleNew : Bytes → Except Bytes ModuleTypes) (bytecode : Bytes) : Except Bytes ModuleTypes := do
  match moduleNew bytecode with
  | .error e => .error (str "invalid WASM module: " ++ e)
  | .ok types =>
    checkImports types.imports
    checkExports types.exports kRequiredExports
    return types

def failOn (what : Bytes) : Option Bytes → Except Bytes Unit
  | none => .ok ()
  | some e => .error (what ++ e)

def registerHostFunctions (defineFunc : Bytes → Option Bytes) : List Bytes → Except Bytes Unit
  | [] => .ok ()
  | name :: rest => do
    failOn (str "failed to define env." ++ name ++ str ": ") (defineFunc name)
    registerHostFunctions defineFunc rest

/-- The exports that a module need not have. -/
structure Resolved where
  hasFree : Bool
  hasDescribe : Bool
  hasInitialize : Bool

def resolveExports (exportGet : Bytes → Option ExternKind) : Except Bytes Resolved :=
  if exportGet (str "memory") ≠ some .memory then .error (str "module does not export memory")
  else if exportGet (str "origindb_invoke") ≠ some .func then .error (str "module does not export origindb_invoke")
  else if exportGet (str "origindb_alloc") ≠ some .func then .error (str "module does not export origindb_alloc")
  else .ok
    { hasFree := exportGet (str "origindb_free") = some .func
      hasDescribe := exportGet (str "origindb_describe") = some .func
      hasInitialize := exportGet (str "_initialize") = some .func }

def instantiate (io : InstantiateIo) : Except Bytes Resolved := do
  failOn (str "WASI setup failed: ") io.setWasi
  failOn (str "WASI linker setup failed: ") io.defineWasi
  registerHostFunctions io.defineFunc hostFunctionNames
  failOn (str "instantiation failed: ") io.linkerInstantiate
  let resolved ← resolveExports io.exportGet
  if resolved.hasInitialize then failOn (str "_initialize failed: ") io.fnInitialize
  return resolved

/-- What `LoadModule` finds (`:171`), and the version that the module describes. -/
def compiledFrom (moduleNew : Bytes → Except Bytes ModuleTypes) (io : InstantiateIo) (bytecode : Bytes) : Except Bytes (Option Bytes) := do
  let _ ← compile moduleNew bytecode
  let resolved ← instantiate io
  return if resolved.hasDescribe then io.described else none

/-! ## What is admitted -/

/-- The module asks for what is offered, and has what is needed. -/
structure Admitted (moduleNew : Bytes → Except Bytes ModuleTypes) (bytecode : Bytes) : Prop where
  compiles : ∃ types, moduleNew bytecode = .ok types ∧
    (∀ i ∈ types.imports, i.1 = str "wasi_snapshot_preview1" ∨ i.1 = str "env" ∧ i.2 ∈ hostFunctionNames) ∧
    ∀ e ∈ kRequiredExports, e ∈ types.exports

/-- The load has gone through wasmtime. -/
def Genuine (moduleNew : Bytes → Except Bytes ModuleTypes) (bytecode : Bytes) (ld : Loading) : Prop :=
  ∃ io, ld.compiled = compiledFrom moduleNew io bytecode

namespace Modules

/-- Every load of the step has, of a boot as well. -/
def GenuineLoads (moduleNew : Bytes → Except Bytes ModuleTypes) (sha256 : Bytes → Bytes) (s : Modules) : Label → Prop
  | .deploy r ld _ => Genuine moduleNew r.bytecode ld
  | .undeploy _ _ => True
  | .restart _ loads => ∀ name bytes, (s.disk.storeInitialize sha256).loadBytecode name = some bytes → Genuine moduleNew bytes (loads name)

/-- Every module that is served has been admitted. -/
def AllAdmitted (moduleNew : Bytes → Except Bytes ModuleTypes) (memory : StrMap WasmModule) : Prop :=
  ∀ (name : Bytes) (m : WasmModule), memory[name]? = some m → Admitted moduleNew m.bytecode

end Modules

section
variable {moduleNew : Bytes → Except Bytes ModuleTypes} {bytecode : Bytes} {env : Env} {maxLag : Nat} {sha256 : Bytes → Bytes}
  {imports : List (Bytes × Bytes)} {exports required : List Bytes} {ld : Loading}

/-! ## The checks -/

/-- **What is allowed is what is defined.** -/
theorem kKnownEnvImports_eq : kKnownEnvImports = hostFunctionNames := rfl

theorem allowed_iff {i : Bytes × Bytes} :
    allowed i = true ↔ i.1 = str "wasi_snapshot_preview1" ∨ i.1 = str "env" ∧ i.2 ∈ hostFunctionNames := by
  rw [allowed, Bool.or_eq_true, Bool.and_eq_true, decide_eq_true_eq, decide_eq_true_eq, List.contains_iff_mem, kKnownEnvImports_eq]

theorem checkImports_ok : checkImports imports = .ok () ↔ ∀ i ∈ imports, allowed i = true := by
  induction imports with
  | nil => simp [checkImports]
  | cons i rest ih =>
    rw [checkImports, List.forall_mem_cons]
    by_cases hi : allowed i = true
    · rw [if_pos hi, ih]
      exact (and_iff_right hi).symm
    · rw [if_neg hi]
      simp [hi]

/-- The first import that is not allowed. -/
theorem checkImports_error {e : Bytes} : checkImports imports = .error e ↔
    ∃ before i after, imports = before ++ i :: after ∧ (∀ j ∈ before, allowed j = true) ∧ allowed i = false ∧ e = disallowed i := by
  induction imports with
  | nil => simp [checkImports]
  | cons j rest ih =>
    rw [checkImports]
    by_cases hj : allowed j = true
    · rw [if_pos hj, ih]
      constructor
      · rintro ⟨before, i, after, rfl, hbefore, hi, he⟩
        exact ⟨j :: before, i, after, rfl, List.forall_mem_cons.2 ⟨hj, hbefore⟩, hi, he⟩
      · rintro ⟨before, i, after, heq, hbefore, hi, he⟩
        cases before with
        | nil =>
          cases heq
          rw [hi] at hj
          cases hj
        | cons k before =>
          cases heq
          exact ⟨before, i, after, rfl, (List.forall_mem_cons.1 hbefore).2, hi, he⟩
    · rw [if_neg hj]
      constructor
      · intro he
        cases he
        exact ⟨[], j, rest, rfl, by simp, by simpa using hj, rfl⟩
      · rintro ⟨before, i, after, heq, hbefore, hi, rfl⟩
        cases before with
        | nil =>
          cases heq
          rfl
        | cons k before =>
          cases heq
          exact absurd ((List.forall_mem_cons.1 hbefore).1) hj

theorem checkExports_ok : checkExports exports required = .ok () ↔ ∀ e ∈ required, e ∈ exports := by
  induction required with
  | nil => simp [checkExports]
  | cons e rest ih =>
    rw [checkExports, List.forall_mem_cons]
    by_cases he : exports.contains e = true
    · rw [if_pos he, ih]
      exact (and_iff_right (List.contains_iff_mem.1 he)).symm
    · rw [if_neg he]
      rw [List.contains_iff_mem] at he
      simp [he]

theorem admitted_of_compile {types : ModuleTypes} (h : compile moduleNew bytecode = .ok types) : Admitted moduleNew bytecode := by
  rw [compile] at h
  split at h
  · cases h
  · rename_i types' hnew
    cases himports : checkImports types'.imports with
    | error e =>
      rw [himports] at h
      cases h
    | ok u =>
      cases hexports : checkExports types'.exports kRequiredExports with
      | error e =>
        rw [himports, hexports] at h
        cases h
      | ok v => exact ⟨types', hnew, fun i hi => allowed_iff.1 (checkImports_ok.1 himports i hi), checkExports_ok.1 hexports⟩

theorem Genuine.admitted (h : Genuine moduleNew bytecode ld) {described : Option Bytes} (hok : ld.compiled = .ok described) :
    Admitted moduleNew bytecode := by
  obtain ⟨io, hio⟩ := h
  rw [hok, compiledFrom] at hio
  cases hcompile : compile moduleNew bytecode with
  | error e =>
    rw [hcompile] at hio
    cases hio
  | ok types => exact admitted_of_compile hcompile

/-- An import that is not offered is what the load fails with, whatever else is wrong. -/
theorem Genuine.disallowed (h : Genuine moduleNew bytecode ld) {types : ModuleTypes} (hnew : moduleNew bytecode = .ok types)
    {before after : List (Bytes × Bytes)} {i : Bytes × Bytes} (himports : types.imports = before ++ i :: after)
    (hbefore : ∀ j ∈ before, allowed j = true) (hi : allowed i = false) : ld.compiled = .error (Wasm.disallowed i) := by
  obtain ⟨io, hio⟩ := h
  have hcheck : checkImports types.imports = .error (Wasm.disallowed i) := checkImports_error.2 ⟨before, i, after, himports, hbefore, hi, rfl⟩
  rw [hio, compiledFrom, compile, hnew]
  dsimp only
  rw [hcheck]
  rfl

/-! ## What is loaded -/

/-- What is loaded has the bytecode it was loaded from, and has been compiled. -/
theorem loadModule_compiled {modules memory : StrMap WasmModule} {name version : Bytes} {caps : ModuleCapabilities} {st st' : Store}
    (h : loadModule env maxLag modules name bytecode version caps ld st = .loaded memory st') :
    ∃ m described, m.bytecode = bytecode ∧ ld.compiled = .ok described ∧ memory = modules.insert name m := by
  simp only [loadModule] at h
  split at h
  · cases h
  · split at h
    · cases h
    · split at h
      · cases h
      · rename_i described hd
        generalize (if version = [] then described.getD [] else version) = v at h
        split at h
        · exact ⟨_, described, rfl, hd, Modules.runHooks_loaded h⟩
        · split at h
          · split at h
            · cases h
            · split at h
              · cases h
              · exact ⟨_, described, rfl, hd, Modules.runHooks_loaded h⟩
          · exact ⟨_, described, rfl, hd, Modules.runHooks_loaded h⟩

variable (env maxLag) in
/-- What cannot be compiled is not loaded, and changes nothing. -/
theorem loadModule_uncompiled {modules : StrMap WasmModule} {name version e : Bytes} {caps : ModuleCapabilities} {st : Store}
    (h : ld.compiled = .error e) : ∃ e', loadModule env maxLag modules name bytecode version caps ld st = .failed e' st ∧
      (ld.shutdown = false → bytecode ≠ [] → e' = e) := by
  rw [loadModule]
  split
  · rename_i hshutdown
    exact ⟨_, rfl, fun hno => by simp [hshutdown] at hno⟩
  · split
    · rename_i hempty
      exact ⟨_, rfl, fun _ hne => absurd hempty hne⟩
    · rw [h]
      exact ⟨e, rfl, fun _ _ => rfl⟩

end

namespace Modules

section
variable {moduleNew : Bytes → Except Bytes ModuleTypes} {env : Env} {maxLag : Nat} {sha256 : Bytes → Bytes} {s s' : Modules}
  {memory memory' : StrMap WasmModule} {name : Bytes}

theorem AllAdmitted.insert (h : AllAdmitted moduleNew memory) {m : WasmModule} (hm : Admitted moduleNew m.bytecode) :
    AllAdmitted moduleNew (memory.insert name m) := by
  intro n m' hm'
  rw [OrdMap.getElem?_insert] at hm'
  split at hm'
  · cases hm'
    exact hm
  · exact h n m' hm'

theorem AllAdmitted.unload (h : AllAdmitted moduleNew memory) : AllAdmitted moduleNew (unloadModule memory name).2 := by
  intro n m hm
  rw [unloadModule, OrdMap.getElem?_erase] at hm
  split at hm
  · cases hm
  · exact h n m hm

theorem AllAdmitted.load (h : AllAdmitted moduleNew memory) {bytecode version : Bytes} {caps : ModuleCapabilities} {ld : Loading} {st st' : Store}
    (hgenuine : Genuine moduleNew bytecode ld) (hload : loadModule env maxLag memory name bytecode version caps ld st = .loaded memory' st') :
    AllAdmitted moduleNew memory' := by
  obtain ⟨m, described, rfl, hcompiled, rfl⟩ := loadModule_compiled hload
  exact h.insert (hgenuine.admitted hcompiled)

/-- What a boot puts in place has been admitted. -/
theorem AllAdmitted.restore {disk : ModuleStore} {loads : Bytes → Loading} {l : List (Bytes × StoredModuleInfo)} {st st' : Store}
    (h : AllAdmitted moduleNew memory) (hgenuine : ∀ name bytes, disk.loadBytecode name = some bytes → Genuine moduleNew bytes (loads name))
    (hrestore : restoreModules env maxLag disk loads l memory st = some (memory', st')) : AllAdmitted moduleNew memory' := by
  induction l generalizing memory st with
  | nil =>
    cases hrestore
    exact h
  | cons p rest ih =>
    obtain ⟨n, info⟩ := p
    rw [restoreModules] at hrestore
    split at hrestore
    · exact ih h hrestore
    · rename_i bytes hbytes
      split at hrestore
      · cases hrestore
      · exact ih h hrestore
      · rename_i hload
        exact ih (h.load (hgenuine n bytes hbytes) hload) hrestore

theorem admitted_step {l : Label} (h : AllAdmitted moduleNew s.memory) (hok : GenuineLoads moduleNew sha256 s l)
    (hstep : step env maxLag sha256 s l = some s') : AllAdmitted moduleNew s'.memory := by
  cases l with
  | deploy r ld io =>
    cases hstep
    simp only [deployModule]
    split
    · exact h
    · split
      · exact h
      · split
        · exact h
        · exact h
        · rename_i hload
          have hloaded := h.load hok hload
          split
          · exact hloaded.unload
          · exact hloaded
  | undeploy name kept =>
    cases hstep
    exact h.unload
  | restart store loads =>
    cases hstep
    have hempty : AllAdmitted moduleNew ∅ := fun n m hm => by simp at hm
    simp only [Modules.restart]
    split
    · exact hempty
    · rename_i hrestore
      exact hempty.restore hok hrestore

variable (env maxLag sha256 s) in
/-- A deploy of what cannot be compiled fails, and leaves the server as it is. -/
theorem deployModule_uncompiled (r : DeployRequest) {ld : Loading} (io : SaveIo) {e : Bytes} (h : ld.compiled = .error e) :
    ∃ response, s.deployModule env maxLag sha256 r ld io = (response, s) ∧ response.success = false ∧
      (ld.shutdown = false → r.name ≠ [] → r.bytecode ≠ [] → r.bytecode.length ≤ maxModuleBytes →
        response.error = r.name ++ str ": " ++ e) := by
  rw [deployModule]
  split
  · rename_i hrequired
    exact ⟨_, rfl, rfl, fun _ hname hbytecode => absurd hrequired (not_or.2 ⟨hname, hbytecode⟩)⟩
  · split
    · rename_i hsize
      exact ⟨_, rfl, rfl, fun _ _ _ hfits => absurd hsize (Nat.not_lt.2 hfits)⟩
    · obtain ⟨e', hload, he⟩ := loadModule_uncompiled env maxLag h
      rw [hload]
      refine ⟨_, rfl, rfl, fun hrunning _ hbytecode _ => ?_⟩
      rw [he hrunning hbytecode]

end

/-- **Nothing is served that asks for more than it is offered.** Over every run of deploys, undeploys and restarts, from any disk, every
module that is served has been admitted; and a module that asks for something else is refused with the first thing that it asks for, and
its deploy changes nothing. -/
theorem served_modules_admitted (moduleNew : Bytes → Except Bytes ModuleTypes) (env : Env) (maxLag : Nat) (sha256 : Bytes → Bytes)
    (disk : ModuleStore) (store : Store) (ls : List Label) (s : Modules)
    (hok : Allowed (step env maxLag sha256) (GenuineLoads moduleNew sha256) { disk := disk, store := store } ls)
    (hrun : run (step env maxLag sha256) { disk := disk, store := store } ls = some s) :
    AllAdmitted moduleNew s.memory ∧
    ∀ (r : DeployRequest) (ld : Loading) (io : SaveIo) (types : ModuleTypes) (before after : List (Bytes × Bytes)) (i : Bytes × Bytes),
      Genuine moduleNew r.bytecode ld → moduleNew r.bytecode = .ok types → types.imports = before ++ i :: after →
      (∀ j ∈ before, allowed j = true) → allowed i = false →
      ∃ response, s.deployModule env maxLag sha256 r ld io = (response, s) ∧ response.success = false ∧
        (ld.shutdown = false → r.name ≠ [] → r.bytecode ≠ [] → r.bytecode.length ≤ maxModuleBytes →
          response.error = r.name ++ str ": disallowed import: " ++ i.1 ++ str "." ++ i.2) := by
  have hempty : AllAdmitted moduleNew ({ disk := disk, store := store } : Modules).memory := fun n m hm => by simp at hm
  refine ⟨run_invariant (fun s => AllAdmitted moduleNew s.memory) (fun _ _ _ h hl hs => admitted_step h hl hs) hempty hok hrun, ?_⟩
  intro r ld io types before after i hgenuine hnew himports hbefore hi
  obtain ⟨response, hdeploy, hfails, herror⟩ := deployModule_uncompiled env maxLag sha256 s r io
    (hgenuine.disallowed hnew himports hbefore hi)
  refine ⟨response, hdeploy, hfails, fun hrunning hname hbytecode hsize => ?_⟩
  rw [herror hrunning hname hbytecode hsize, disallowed]
  simp only [List.append_assoc]
  rfl

/-- A module that asks for `env.open`. -/
def wantsOpen : Bytes :=
  [0, 97, 115, 109, 1, 0, 0, 0, 1, 4, 1, 96, 0, 0, 2, 12, 1, 3, 101, 110, 118, 4, 111, 112, 101, 110, 0, 0]

/-- What wasmtime says of the two modules. -/
def twoModules (bytecode : Bytes) : Except Bytes ModuleTypes :=
  if bytecode = noReducer then .ok { imports := [], exports := kRequiredExports }
  else if bytecode = wantsOpen then .ok { imports := [(str "env", str "open")], exports := [] }
  else .error (str "failed to parse WebAssembly module")

def noReducerExport (name : Bytes) : Option ExternKind :=
  if name = str "memory" then some .memory
  else if name = str "origindb_invoke" ∨ name = str "origindb_alloc" then some .func
  else none

def noReducerDir : ModuleDir where
  wasm := some noReducer
  manifest := some { name := str "m", version := str "1.0", sha256 := noReducerSha noReducer }

theorem genuine_noReducer : Genuine twoModules noReducer {} :=
  ⟨{ exportGet := noReducerExport }, by rw [show compiledFrom _ _ _ = .ok none by decide]⟩

theorem genuine_wantsOpen : Genuine twoModules wantsOpen { compiled := .error (str "disallowed import: env.open") } :=
  ⟨{ exportGet := fun _ => none }, by
    rw [show compiledFrom _ _ _ = .error (str "disallowed import: env.open") by decide]⟩

/-- One is served, also when the server has been restarted, and the other refused. -/
theorem served_modules_admitted_two : ∃ s, run (step fiveEnv 100000 noReducerSha) {} (deployedAndRestarted {}) = some s ∧
    s.memory[str "m"]?.isSome = true ∧ AllAdmitted twoModules s.memory ∧
    ∃ response, s.deployModule fiveEnv 100000 noReducerSha { name := str "n", bytecode := wantsOpen }
        { compiled := .error (str "disallowed import: env.open") } .ok = (response, s) ∧
      response.error = str "n: disallowed import: env.open" := by
  have hok : Allowed (step fiveEnv 100000 noReducerSha) (GenuineLoads twoModules noReducerSha) {} (deployedAndRestarted {}) := by
    refine ⟨genuine_noReducer, fun name bytes hbytes => ?_, trivial⟩
    rw [ModuleStore.loadBytecode] at hbytes
    split at hbytes
    · obtain ⟨dir, hdir, hwasm⟩ := Option.bind_eq_some_iff.1 hbytes
      have hmem := Std.ExtTreeMap.mem_toList_iff_getElem?_eq_some.2 hdir
      rw [show Std.ExtTreeMap.toList _ = [(str "m", noReducerDir)] by decide] at hmem
      cases List.mem_singleton.1 hmem
      cases hwasm
      exact genuine_noReducer
    · cases hbytes
  obtain ⟨hadmitted, hrefused⟩ := served_modules_admitted twoModules fiveEnv 100000 noReducerSha {} {} _ _ hok rfl
  obtain ⟨response, hdeploy, -, herror⟩ := hrefused { name := str "n", bytecode := wantsOpen } _ .ok
    { imports := [(str "env", str "open")], exports := [] } [] [] (str "env", str "open") genuine_wantsOpen (by decide) rfl (by simp)
    (by decide)
  exact ⟨_, rfl, by decide, hadmitted, response, hdeploy,
    (herror rfl (by decide) (by decide) (by decide)).trans (by decide)⟩

end Modules

end OriginDB.Wasm
