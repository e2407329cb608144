import OriginDB.Lib.Machine
import OriginDB.Wasm.StagedWrites
/-!
# Deploying modules, and the modules of a booted server

`DeployModule` loads a module into the engine and then saves it, `UndeployModule` takes it out of both, and
a boot loads again what the store has. The capabilities go with the request as far as the engine: the
manifest has no place for them, and a boot loads every module with the default ones.

| here | there |
| --- | --- |
| `compareVersions`                | `CompareVersions` (`wasm_engine.cpp:245`) |
| `loadModule`, `unloadModule`     | `LoadModule` (`:137`), `UnloadModule` (`:269`) |
| `ModuleStore.save`, `…remove`    | `Save` (`module_store.cpp:108`), `Remove` (`:170`) |
| `ModuleStore.storeInitialize`    | `Initialize` (`:52`) |
| `deployModule`, `undeployModule` | `wasm_service_impl.cpp:38`, `:112`, once the caller has proved to be an admin |
| `restoreModules`                 | `origindb_server.cpp:114-131` |

What wasmtime makes of the bytecode, what the module does in `__init` and `__migrate`, and how the file
system answers are given from outside. `sha256` is OpenSSL's. A version is UTF-8, which protobuf checks, so
a manifest can always be printed.
-/
namespace OriginDB

open JsonDoc ByteCodec Machine

namespace Wasm

/-! ## Versions -/

/-- The segments between the dots; nothing comes after a dot at the very end. -/
def versionSegments (v : Bytes) : List Bytes :=
  let segments := v.splitOn 46
  if segments.getLast? = some [] then segments.dropLast else segments

/-- All digits, and at least one. -/
def isNumeric (s : Bytes) : Bool := s ≠ [] && s.all Regex.isDigit

/-- Two segments; `none` is an exception of `std::stol`. -/
def compareSegment (a b : Bytes) : Option Int :=
  if isNumeric a && isNumeric b then do
    let va ← Numbers.stoll a
    let vb ← Numbers.stoll b
    return if va ≠ vb then (if va < vb then -1 else 1) else 0
  else some (if a ≠ b then (if compare a b = .lt then -1 else 1) else 0)

/-- The loop over the segments; where one version has run out, its segment is empty. -/
def compareSegments : List Bytes → List Bytes → Option Int
  | [], [] => some 0
  | a :: as, [] => (compareSegment a []).bind fun c => if c ≠ 0 then some c else compareSegments as []
  | [], b :: bs => (compareSegment [] b).bind fun c => if c ≠ 0 then some c else compareSegments [] bs
  | a :: as, b :: bs => (compareSegment a b).bind fun c => if c ≠ 0 then some c else compareSegments as bs

def compareVersions (a b : Bytes) : Option Int := compareSegments (versionSegments a) (versionSegments b)

/-! ## The engine's modules -/

structure WasmModule where
  bytecode : Bytes
  version : Bytes
  capabilities : ModuleCapabilities
deriving DecidableEq

/-- What a load meets: does the bytecode compile and run, which version does `origindb_describe` give,
and what does the module do in its hooks? -/
structure Loading where
  shutdown : Bool := false
  compiled : Except Bytes (Option Bytes) := .ok none
  init : Guest := .returns errNoHandler
  migrate : Guest := .returns errNoHandler
  initIo : Io := {}
  migrateIo : Io := {}

inductive Loaded where
  | loaded (modules : StrMap WasmModule) (s : Store)
  | failed (error : Bytes) (s : Store)
  | threw (s : Store)

section
variable (env : Env) (maxLag : Nat)

/-- The end of `LoadModule`: `__init`, `__migrate`, publication (wasm_engine.cpp:200-227). -/
def runHooks (modules : StrMap WasmModule) (name : Bytes) (module : WasmModule) (ld : Loading) (s : Store) : Loaded :=
  let entry : Entry := { shutdown := ld.shutdown }
  match execute env maxLag ld.initIo module.capabilities name (str "__init") entry ld.init s with
  | .threw s => .threw s
  | .returned r s =>
    if r.success = false then .failed (str "__init failed: " ++ r.error) s
    else match modules[name]? with
      | none => .loaded (modules.insert name module) s
      | some _ =>
        match execute env maxLag ld.migrateIo module.capabilities name (str "__migrate") entry ld.migrate s with
        | .threw s => .threw s
        | .returned r s =>
          if r.success = false then .failed (str "__migrate failed: " ++ r.error) s
          else .loaded (modules.insert name module) s

/-- `LoadModule` (wasm_engine.cpp:137). -/
def loadModule (modules : StrMap WasmModule) (name bytecode version : Bytes) (caps : ModuleCapabilities) (ld : Loading)
    (s : Store) : Loaded :=
  if ld.shutdown then .failed (str "engine shutting down") s
  else if bytecode = [] then .failed (str "empty module bytecode") s
  else match ld.compiled with
    | .error e => .failed e s
    | .ok described =>
      let module : WasmModule :=
        { bytecode := bytecode, version := if version = [] then described.getD [] else version, capabilities := caps }
      match modules[name]? with
      | none => runHooks env maxLag modules name module ld s
      | some previous =>
        if previous.version ≠ [] ∧ module.version ≠ [] then
          match compareVersions module.version previous.version with
          | none => .threw s
          | some c =>
            if c < 0 then
              .failed (str "version " ++ module.version ++ str " is older than deployed version " ++ previous.version ++
                str "; bump the version to redeploy") s
            else runHooks env maxLag modules name module ld s
        else runHooks env maxLag modules name module ld s

/-- `UnloadModule` (wasm_engine.cpp:269). -/
def unloadModule (modules : StrMap WasmModule) (name : Bytes) : Bool × StrMap WasmModule :=
  (modules[name]?.isSome, modules.erase name)

end

/-! ## The module store -/

/-- `manifest.json`, as far as it is read again. -/
structure Manifest where
  name : Bytes
  version : Bytes
  sha256 : Bytes
deriving DecidableEq

/-- The directory of a module; a manifest that cannot be read counts as none. -/
structure ModuleDir where
  wasm : Option Bytes := none
  manifest : Option Manifest := none
deriving DecidableEq

structure StoredModuleInfo where
  version : Bytes
  sha256 : Bytes
deriving DecidableEq

structure ModuleStore where
  dirs : StrMap ModuleDir := ∅
  index : StrMap StoredModuleInfo := ∅

/-- How the file system answers a `Save`. -/
inductive SaveIo where
  | ok
  | noDirectory (message : Bytes)
  | notWritten
  | notRenamed (message : Bytes)
  /-- `manifest.json` cannot be opened: the old one stays. `wasm` is what has been put into place. -/
  | noManifest (wasm : Bytes)
  /-- It is opened and cut off. -/
  | badManifest (wasm : Bytes)
  /-- What the last flush of a stream could not write is missing, and nobody looks. -/
  | lost (wasm : Bytes) (manifest : Bool)
deriving DecidableEq

/-- `ValidModuleName` (module_store.cpp:15). -/
def validModuleName (name : Bytes) : Bool :=
  name ≠ [] && name.length ≤ 128 && (name.all fun c => Regex.isAlnum c || c = 95 || c = 45 || c = 46) &&
    name ≠ str "." && name ≠ str ".."

namespace ModuleStore

/-- `Save` (module_store.cpp:108). -/
def save (sha256 : Bytes → Bytes) (m : ModuleStore) (name version bytecode : Bytes) (io : SaveIo) :
    Except Bytes Unit × ModuleStore :=
  if validModuleName name = false then (.error (str "invalid module name"), m)
  else
    let dir := m.dirs[name]?.getD {}
    let manifest : Manifest := { name := name, version := version, sha256 := sha256 bytecode }
    let indexed := m.index.insert name { version := version, sha256 := manifest.sha256 }
    match io with
    | .noDirectory message => (.error (str "cannot create module directory: " ++ message), m)
    | .notWritten => (.error (str "failed to write module bytecode"), { m with dirs := m.dirs.insert name dir })
    | .notRenamed message => (.error (str "failed to move module into place: " ++ message), { m with dirs := m.dirs.insert name dir })
    | .noManifest wasm => (.error (str "failed to write manifest"),
        { m with dirs := m.dirs.insert name { dir with wasm := some wasm } })
    | .badManifest wasm => (.error (str "failed to write manifest"),
        { m with dirs := m.dirs.insert name { wasm := some wasm, manifest := none } })
    | .lost wasm written => (.ok (),
        { dirs := m.dirs.insert name { wasm := some wasm, manifest := if written then some manifest else none }, index := indexed })
    | .ok => (.ok (),
        { dirs := m.dirs.insert name { wasm := some bytecode, manifest := some manifest }, index := indexed })

/-- `Remove` (module_store.cpp:170); `kept` says which of the two files could not be removed. -/
def remove (m : ModuleStore) (name : Bytes) (kept : Bool × Bool) : Bool × ModuleStore :=
  if validModuleName name = false then (false, m)
  else
    let dir := m.dirs[name]?.getD {}
    let left : ModuleDir := { wasm := if kept.1 then dir.wasm else none, manifest := if kept.2 then dir.manifest else none }
    (m.index[name]?.isSome || m.dirs[name]?.isSome,
      { dirs := if kept.1 ∨ kept.2 then m.dirs.insert name left else m.dirs.erase name, index := m.index.erase name })

/-- What `Initialize` takes from a directory (module_store.cpp:63-101). -/
def readDir (sha256 : Bytes → Bytes) (dir : ModuleDir) : Option (Bytes × StoredModuleInfo) :=
  match dir.manifest, dir.wasm with
  | some manifest, some wasm =>
    if sha256 wasm = manifest.sha256 then some (manifest.name, { version := manifest.version, sha256 := manifest.sha256 }) else none
  | _, _ => none

/-- `Initialize` (module_store.cpp:52). -/
def storeInitialize (sha256 : Bytes → Bytes) (m : ModuleStore) : ModuleStore :=
  { m with index := OrdMap.insertAll ∅ (m.dirs.toList.filterMap fun p => readDir sha256 p.2) }

/-- `LoadBytecode` (module_store.cpp:196). -/
def loadBytecode (m : ModuleStore) (name : Bytes) : Option Bytes :=
  if m.index[name]?.isSome then m.dirs[name]?.bind ModuleDir.wasm else none

end ModuleStore

/-! ## The service -/

structure DeployRequest where
  name : Bytes
  bytecode : Bytes
  version : Bytes := []
  capabilities : ModuleCapabilities := {}

def maxModuleBytes : Nat := 64 * 1024 * 1024

/-- What a response says. -/
structure Response where
  success : Bool
  error : Bytes := []
deriving DecidableEq

/-- A server: its engine, its module store, its tables. `deployed` is a history variable: the capabilities
of the last successful deploy of each name. -/
structure Modules where
  memory : StrMap WasmModule := ∅
  disk : ModuleStore := {}
  store : Store := {}
  deployed : StrMap ModuleCapabilities := ∅

namespace Modules

section
variable (env : Env) (maxLag : Nat) (sha256 : Bytes → Bytes)

/-- `DeployModule` (wasm_service_impl.cpp:38). -/
def deployModule (s : Modules) (r : DeployRequest) (ld : Loading) (io : SaveIo) : Response × Modules :=
  if r.name = [] ∨ r.bytecode = [] then ({ success := false, error := str "module name and bytecode are required" }, s)
  else if maxModuleBytes < r.bytecode.length then ({ success := false, error := str "module exceeds 64MiB size limit" }, s)
  else match loadModule env maxLag s.memory r.name r.bytecode r.version r.capabilities ld s.store with
    | .threw store => ({ success := false, error := str "exception during module deployment" }, { s with store := store })
    | .failed error store => ({ success := false, error := r.name ++ str ": " ++ error }, { s with store := store })
    | .loaded memory store =>
      match s.disk.save sha256 r.name r.version r.bytecode io with
      | (.error e, disk) =>
        ({ success := false, error := str "failed to persist module: " ++ e },
          { s with memory := (unloadModule memory r.name).2, disk := disk, store := store })
      | (.ok _, disk) =>
        ({ success := true },
          { memory := memory, disk := disk, store := store, deployed := s.deployed.insert r.name r.capabilities })

/-- `UndeployModule` (wasm_service_impl.cpp:112). -/
def undeployModule (s : Modules) (name : Bytes) (kept : Bool × Bool) : Response × Modules :=
  let (unloaded, memory) := unloadModule s.memory name
  let (removed, disk) := s.disk.remove name kept
  (if unloaded || removed then { success := true } else { success := false, error := str "module not found" },
    { s with memory := memory, disk := disk })

/-- The loop of a boot over the modules of the store, each with the default capabilities
(origindb_server.cpp:118-128); `none` is an exception, and the server does not come up. -/
def restoreModules (disk : ModuleStore) (loads : Bytes → Loading) :
    List (Bytes × StoredModuleInfo) → StrMap WasmModule → Store → Option (StrMap WasmModule × Store)
  | [], memory, store => some (memory, store)
  | (name, info) :: rest, memory, store =>
    match disk.loadBytecode name with
    | none => restoreModules disk loads rest memory store
    | some bytes =>
      match loadModule env maxLag memory name bytes info.version {} (loads name) store with
      | .threw _ => none
      | .failed _ store => restoreModules disk loads rest memory store
      | .loaded memory store => restoreModules disk loads rest memory store

/-- A restart on the tables `store` that recovery gives. A server that does not come up serves nothing. -/
def restart (s : Modules) (store : Store) (loads : Bytes → Loading) : Modules :=
  let disk := s.disk.storeInitialize sha256
  match restoreModules env maxLag disk loads disk.index.toList ∅ store with
  | none => { s with memory := ∅, disk := disk, store := store }
  | some (memory, store) => { s with memory := memory, disk := disk, store := store }

inductive Label where
  | deploy (r : DeployRequest) (ld : Loading) (io : SaveIo)
  | undeploy (name : Bytes) (kept : Bool × Bool)
  | restart (store : Store) (loads : Bytes → Loading)

def step (s : Modules) : Label → Option Modules
  | .deploy r ld io => some (s.deployModule env maxLag sha256 r ld io).2
  | .undeploy name kept => some (s.undeployModule name kept).2
  | .restart store loads => some (s.restart env maxLag sha256 store loads)

end

/-! ## The condition -/

/-- A restart brings the module back. -/
def ComesBack (env : Env) (maxLag : Nat) (sha256 : Bytes → Bytes) (s : Modules) (store : Store) (loads : Bytes → Loading)
    (name : Bytes) : Prop :=
  let disk := s.disk.storeInitialize sha256
  ∃ p ∈ restoreModules env maxLag disk loads disk.index.toList ∅ store, p.1[name]?.isSome = true

/-- Modules that come back at a restart were last deployed with the default capabilities. -/
def Unrestricted (env : Env) (maxLag : Nat) (sha256 : Bytes → Bytes) (s : Modules) : Label → Prop
  | .restart store loads => ∀ name, s.ComesBack env maxLag sha256 store loads name →
      ∀ caps, s.deployed[name]? = some caps → caps = ({} : ModuleCapabilities)
  | _ => True

/-! ## What is served -/

/-- Every module runs under the capabilities of the last successful deploy of its name. -/
def Serving (s : Modules) : Prop :=
  ∀ (name : Bytes) (m : WasmModule), s.memory[name]? = some m → s.deployed[name]? = some m.capabilities

/-- Besides, what is stored was deployed. -/
structure Inv (s : Modules) : Prop where
  serving : s.Serving
  stored : ∀ (name : Bytes) (dir : ModuleDir) (manifest : Manifest), s.disk.dirs[name]? = some dir → dir.manifest = some manifest →
    manifest.name = name ∧ s.deployed[name]?.isSome = true

section
variable {env : Env} {maxLag : Nat} {sha256 : Bytes → Bytes} {s s' : Modules}

theorem runHooks_loaded {modules memory : StrMap WasmModule} {name : Bytes} {module : WasmModule} {ld : Loading} {st st' : Store}
    (h : runHooks env maxLag modules name module ld st = .loaded memory st') : memory = modules.insert name module := by
  simp only [runHooks] at h
  split at h
  · cases h
  · split at h
    · cases h
    · split at h
      · cases h
        rfl
      · split at h
        · cases h
        · split at h
          · cases h
          · cases h
            rfl

/-- A module that is loaded has the capabilities it was loaded with. -/
theorem loadModule_loaded {modules memory : StrMap WasmModule} {name bytecode version : Bytes} {caps : ModuleCapabilities}
    {ld : Loading} {st st' : Store} (h : loadModule env maxLag modules name bytecode version caps ld st = .loaded memory st') :
    ∃ m : WasmModule, m.capabilities = caps ∧ memory = modules.insert name m := by
  simp only [loadModule] at h
  split at h
  · cases h
  · split at h
    · cases h
    · split at h
      · cases h
      · rename_i described hd
        generalize (if version = [] then described.getD [] else version) = v at h
        split at h
        · exact ⟨_, rfl, runHooks_loaded h⟩
        · split at h
          · split at h
            · cases h
            · split at h
              · cases h
              · exact ⟨_, rfl, runHooks_loaded h⟩
          · exact ⟨_, rfl, runHooks_loaded h⟩

/-- What a boot puts in place has the default capabilities, and is in the list. -/
theorem restoreModules_spec {disk : ModuleStore} {loads : Bytes → Loading} {l : List (Bytes × StoredModuleInfo)}
    {memory memory' : StrMap WasmModule} {st st' : Store}
    (h : restoreModules env maxLag disk loads l memory st = some (memory', st')) {name : Bytes} {m : WasmModule}
    (hm : memory'[name]? = some m) :
    memory[name]? = some m ∨ (m.capabilities = {} ∧ name ∈ l.map Prod.fst) := by
  induction l generalizing memory st with
  | nil =>
    cases h
    exact Or.inl hm
  | cons p rest ih =>
    obtain ⟨n, info⟩ := p
    -- whatever the rest does, what this one leaves is looked at again
    have hrest : ∀ {memory₁ : StrMap WasmModule} {st₁ : Store},
        restoreModules env maxLag disk loads rest memory₁ st₁ = some (memory', st') →
        (memory₁[name]? = some m → memory[name]? = some m ∨ (m.capabilities = {} ∧ name = n)) →
        memory[name]? = some m ∨ (m.capabilities = {} ∧ name ∈ ((n, info) :: rest).map Prod.fst) := by
      intro memory₁ st₁ hr hone
      rcases ih hr with h₁ | ⟨hcaps, hmem⟩
      · rcases hone h₁ with h₁ | ⟨hcaps, rfl⟩
        · exact Or.inl h₁
        · exact Or.inr ⟨hcaps, by simp⟩
      · exact Or.inr ⟨hcaps, List.mem_cons_of_mem _ hmem⟩
    simp only [restoreModules] at h
    split at h
    · exact hrest h Or.inl
    · split at h
      · cases h
      · exact hrest h Or.inl
      · rename_i hload
        obtain ⟨m', hcaps, rfl⟩ := loadModule_loaded hload
        refine hrest h fun hins => ?_
        rw [OrdMap.getElem?_insert] at hins
        split at hins
        · rename_i hn
          cases hins
          exact Or.inr ⟨hcaps, hn.symm⟩
        · exact Or.inl hins

/-- A manifest that is there after a `Save` was there before, or is the one it wrote. -/
theorem manifest_save {m m' : ModuleStore} {name version bytecode : Bytes} {io : SaveIo} {r : Except Bytes Unit}
    (h : m.save sha256 name version bytecode io = (r, m')) {n : Bytes} {dir : ModuleDir} {manifest : Manifest}
    (hd : m'.dirs[n]? = some dir) (hman : dir.manifest = some manifest) :
    (∃ dir₀, m.dirs[n]? = some dir₀ ∧ dir₀.manifest = some manifest) ∨ (r = .ok () ∧ n = name ∧ manifest.name = name) := by
  have hold : ∀ w, (m.dirs.insert name { m.dirs[name]?.getD {} with wasm := w })[n]? = some dir →
      ∃ dir₀, m.dirs[n]? = some dir₀ ∧ dir₀.manifest = some manifest := by
    intro w hw
    rw [OrdMap.getElem?_insert] at hw
    split at hw
    · rename_i hn
      subst hn
      cases hw
      cases hdir : m.dirs[name]? with
      | none =>
        rw [hdir] at hman
        cases hman
      | some dir₀ =>
        rw [hdir] at hman
        exact ⟨dir₀, rfl, hman⟩
    · exact ⟨dir, hw, hman⟩
  -- a manifest that is new, or gone
  have hnew : ∀ d : ModuleDir, (∀ man, d.manifest = some man → man.name = name) → r = .ok () ∨ d.manifest = none →
      (m.dirs.insert name d)[n]? = some dir →
      (∃ dir₀, m.dirs[n]? = some dir₀ ∧ dir₀.manifest = some manifest) ∨ (r = .ok () ∧ n = name ∧ manifest.name = name) := by
    intro d hname hr hw
    rw [OrdMap.getElem?_insert] at hw
    split at hw
    · rename_i hn
      cases hw
      rcases hr with hr | hr
      · exact Or.inr ⟨hr, hn.symm, hname _ hman⟩
      · rw [hr] at hman
        cases hman
    · exact Or.inl ⟨dir, hw, hman⟩
  simp only [ModuleStore.save] at h
  split at h
  · cases h
    exact Or.inl ⟨dir, hd, hman⟩
  · split at h
    all_goals cases h
    · exact Or.inl ⟨dir, hd, hman⟩
    · exact Or.inl (hold _ hd)
    · exact Or.inl (hold _ hd)
    · exact Or.inl (hold _ hd)
    · exact hnew _ (by simp) (Or.inr rfl) hd
    · rename_i w written
      refine hnew _ (fun man hm => ?_) (Or.inl rfl) hd
      cases written <;> cases hm
      rfl
    · refine hnew _ (fun man hm => ?_) (Or.inl rfl) hd
      cases hm
      rfl

theorem manifest_remove {m : ModuleStore} {name : Bytes} {kept : Bool × Bool} {n : Bytes} {dir : ModuleDir} {manifest : Manifest}
    (hd : (m.remove name kept).2.dirs[n]? = some dir) (hman : dir.manifest = some manifest) :
    ∃ dir₀, m.dirs[n]? = some dir₀ ∧ dir₀.manifest = some manifest := by
  simp only [ModuleStore.remove] at hd
  split at hd
  · exact ⟨dir, hd, hman⟩
  · simp only at hd
    split at hd
    · rw [OrdMap.getElem?_insert] at hd
      split at hd
      · rename_i hn
        subst hn
        cases hd
        cases hdir : m.dirs[name]? with
        | none =>
          rw [hdir] at hman
          simp at hman
        | some dir₀ =>
          rw [hdir] at hman
          refine ⟨dir₀, rfl, ?_⟩
          simp only [Option.getD_some] at hman
          split at hman
          · exact hman
          · cases hman
      · exact ⟨dir, hd, hman⟩
    · rw [OrdMap.getElem?_erase] at hd
      split at hd
      · cases hd
      · exact ⟨dir, hd, hman⟩

/-- The names in the index are those of directories that are in order. -/
theorem mem_storeInitialize {m : ModuleStore} {name : Bytes}
    (h : name ∈ (m.storeInitialize sha256).index.toList.map Prod.fst) :
    ∃ (n : Bytes) (dir : ModuleDir) (manifest : Manifest),
      m.dirs[n]? = some dir ∧ dir.manifest = some manifest ∧ manifest.name = name := by
  obtain ⟨⟨name, info⟩, hmem, rfl⟩ := List.mem_map.1 h
  have hget : (m.storeInitialize sha256).index[name]? = some info := Std.ExtTreeMap.mem_toList_iff_getElem?_eq_some.1 hmem
  by_contra hno
  rw [ModuleStore.storeInitialize, OrdMap.getElem?_insertAll_of_notMem] at hget
  · simp at hget
  · rintro ⟨name', info'⟩ hp rfl
    obtain ⟨⟨n, dir⟩, hdir, hread⟩ := List.mem_filterMap.1 hp
    simp only [ModuleStore.readDir] at hread
    split at hread
    · rename_i manifest wasm hman hwasm
      split at hread
      · cases hread
        exact hno ⟨n, dir, manifest, Std.ExtTreeMap.mem_toList_iff_getElem?_eq_some.1 hdir, hman, rfl⟩
      · cases hread
    · cases hread

/-- Modules and manifests go, the rest is as before. -/
theorem Inv.withdraw (h : s.Inv) {memory : StrMap WasmModule} {disk : ModuleStore} {store : Store}
    (hmem : ∀ (n : Bytes) (m : WasmModule), memory[n]? = some m → s.memory[n]? = some m)
    (hdisk : ∀ (n : Bytes) (dir : ModuleDir) (manifest : Manifest), disk.dirs[n]? = some dir → dir.manifest = some manifest →
      ∃ dir₀, s.disk.dirs[n]? = some dir₀ ∧ dir₀.manifest = some manifest) :
    Inv { s with memory := memory, disk := disk, store := store } := by
  refine ⟨fun n m hm => h.serving n m (hmem n m hm), fun n dir manifest hd hman => ?_⟩
  obtain ⟨dir₀, hd₀, hman₀⟩ := hdisk n dir manifest hd hman
  exact h.stored n dir₀ manifest hd₀ hman₀

/-- A module is served and saved. -/
theorem Inv.deployed (h : s.Inv) {name version bytecode : Bytes} {caps : ModuleCapabilities} {m : WasmModule} {io : SaveIo}
    {disk : ModuleStore} {store : Store} (hcaps : m.capabilities = caps)
    (hsave : s.disk.save sha256 name version bytecode io = (.ok (), disk)) :
    Inv { memory := s.memory.insert name m, disk := disk, store := store, deployed := s.deployed.insert name caps } := by
  refine ⟨fun n m' hm => ?_, fun n dir manifest hd hman => ?_⟩
  · simp only at hm ⊢
    rw [OrdMap.getElem?_insert] at hm ⊢
    split at hm
    · rename_i hn
      cases hm
      rw [if_pos hn, hcaps]
    · rename_i hn
      rw [if_neg hn]
      exact h.serving n m' hm
  · simp only
    rw [OrdMap.getElem?_insert]
    rcases manifest_save hsave hd hman with ⟨dir₀, hd₀, hman₀⟩ | ⟨-, rfl, hname⟩
    · obtain ⟨hname, hsome⟩ := h.stored n dir₀ manifest hd₀ hman₀
      refine ⟨hname, ?_⟩
      split
      · rfl
      · exact hsome
    · exact ⟨hname, by simp⟩

/-- What a restart loads has a manifest, and comes back with the default capabilities. -/
theorem Inv.restart (h : s.Inv) {store : Store} {loads : Bytes → Loading}
    (hok : s.Unrestricted env maxLag sha256 (.restart store loads)) : (s.restart env maxLag sha256 store loads).Inv := by
  have hdirs : (s.restart env maxLag sha256 store loads).disk.dirs = s.disk.dirs := by
    unfold Modules.restart
    simp only
    split <;> rfl
  have hdep : (s.restart env maxLag sha256 store loads).deployed = s.deployed := by
    unfold Modules.restart
    simp only
    split <;> rfl
  refine ⟨fun name m hm => ?_, fun name dir manifest hd hman => ?_⟩
  · rw [hdep]
    simp only [Modules.restart] at hm
    split at hm
    · simp at hm
    · rename_i memory st hr
      rcases restoreModules_spec hr hm with hempty | ⟨hcaps, hmem⟩
      · simp at hempty
      · obtain ⟨n, dir, manifest, hd, hman, rfl⟩ := mem_storeInitialize hmem
        obtain ⟨rfl, hsome⟩ := h.stored n dir manifest hd hman
        obtain ⟨caps, hdeployed⟩ := Option.isSome_iff_exists.1 hsome
        rw [hdeployed, hok manifest.name ⟨(memory, st), hr, by rw [hm]; rfl⟩ caps hdeployed, hcaps]
  · rw [hdirs] at hd
    rw [hdep]
    exact h.stored name dir manifest hd hman

theorem Inv.step {l : Label} (h : s.Inv) (hok : s.Unrestricted env maxLag sha256 l)
    (hstep : step env maxLag sha256 s l = some s') : s'.Inv := by
  cases l with
  | deploy r ld io =>
    cases hstep
    simp only [deployModule]
    split
    · exact h
    · split
      · exact h
      · split
        · exact ⟨h.serving, h.stored⟩
        · exact ⟨h.serving, h.stored⟩
        · rename_i memory store hload
          obtain ⟨m, hcaps, rfl⟩ := loadModule_loaded hload
          split
          · rename_i e disk hsave
            refine h.withdraw (fun n m' hm => ?_) fun n dir manifest hd hman => ?_
            · -- the old module of that name is gone as well
              simp only [unloadModule] at hm
              rw [OrdMap.getElem?_erase] at hm
              split at hm
              · cases hm
              · rename_i hne
                rwa [OrdMap.getElem?_insert, if_neg hne] at hm
            · rcases manifest_save hsave hd hman with hold | ⟨hr, -⟩
              · exact hold
              · cases hr
          · rename_i disk hsave
            exact h.deployed hcaps hsave
  | undeploy name kept =>
    cases hstep
    refine h.withdraw (fun n m hm => ?_) fun n dir manifest hd hman => manifest_remove hd hman
    rw [OrdMap.getElem?_erase] at hm
    split at hm
    · cases hm
    · exact hm
  | restart store loads =>
    cases hstep
    exact h.restart hok

end

/-! ## Whole histories -/

/-- Every host function refuses the table. -/
def Refuses (J : JsonLib) (caps : ModuleCapabilities) (table : Bytes) : Prop :=
  ∀ (s : Store) (call : HostCallContext) (key value start : Bytes) (limit : Int32),
    hostTableRead J caps s call table key = some (errPermission, []) ∧
    hostTableScan J caps s call table start limit = some (errPermission, []) ∧
    hostTableWrite J caps call table key value = (errPermission, call) ∧
    hostTableDelete caps call table key = (errPermission, call)

/-- Nothing can be staged. -/
def RefusesWrites (J : JsonLib) (caps : ModuleCapabilities) : Prop :=
  ∀ (call : HostCallContext) (table key value : Bytes),
    hostTableWrite J caps call table key value = (errPermission, call) ∧
    hostTableDelete caps call table key = (errPermission, call)

/-- A module is held to the tables and the mode it was last deployed with. -/
def Confined (J : JsonLib) (s : Modules) : Prop :=
  ∀ (name : Bytes) (m : WasmModule), s.memory[name]? = some m → ∃ caps, s.deployed[name]? = some caps ∧
    (∀ table, tableAllowed caps table = false → Refuses J m.capabilities table) ∧
    (caps.readOnly = true → RefusesWrites J m.capabilities)

theorem Serving.confined {s : Modules} (h : s.Serving) (J : JsonLib) : s.Confined J := by
  intro name m hm
  refine ⟨m.capabilities, h name m hm, fun table ht st call key value start limit => ?_, fun hro call table key value => ?_⟩
  · simp [hostTableRead, hostTableScan, hostTableWrite, hostTableDelete, ht]
  · simp [hostTableWrite, hostTableDelete, hro]

/-- **Sandbox limits survive restarts** in every history in which only modules with the default ones come back. -/
theorem capabilities_kept (env : Env) (maxLag : Nat) (sha256 : Bytes → Bytes) (store : Store) (ls : List Label) (s : Modules)
    (hok : Allowed (step env maxLag sha256) (Unrestricted env maxLag sha256) { store := store } ls)
    (hrun : run (step env maxLag sha256) { store := store } ls = some s) : s.Serving ∧ s.Confined env.toJsonLib := by
  have h0 : Inv { store := store } := by
    constructor
    · intro name m hm
      simp at hm
    · intro name dir manifest hd
      simp at hd
  have hstep : ∀ s l s', Inv s → s.Unrestricted env maxLag sha256 l → step env maxLag sha256 s l = some s' → Inv s' :=
    fun _ _ _ h hl hs => h.step hl hs
  have h := run_invariant Inv hstep h0 hok hrun
  exact ⟨h.serving, h.serving.confined env.toJsonLib⟩

/-- A module that exports what it has to and knows no reducer. -/
def noReducer : Bytes :=
  [0, 97, 115, 109, 1, 0, 0, 0, 1, 14, 2, 96, 4, 127, 127, 127, 127, 1, 127, 96, 1, 127, 1, 127, 3, 3, 2,
   0, 1, 5, 3, 1, 0, 1, 7, 45, 3, 6, 109, 101, 109, 111, 114, 121, 2, 0, 15, 111, 114, 105, 103, 105, 110,
   100, 98, 95, 105, 110, 118, 111, 107, 101, 0, 0, 14, 111, 114, 105, 103, 105, 110, 100, 98, 95, 97,
   108, 108, 111, 99, 0, 1, 10, 13, 2, 5, 0, 65, 236, 124, 11, 5, 0, 65, 128, 8, 11]

/-- SHA-256 on this module. -/
def noReducerSha (b : Bytes) : Bytes :=
  if b = noReducer then str "27886f5735f43a75064747edda79e060bb99695fc8a866372f8315a57867cece" else []

/-- It is deployed as `m`, and the server is restarted. -/
def deployedAndRestarted (caps : ModuleCapabilities) : List Label :=
  [.deploy { name := str "m", bytecode := noReducer, version := str "1.0", capabilities := caps } {} .ok,
   .restart {} fun _ => {}]

theorem capabilities_kept_default : ∃ s, run (step fiveEnv 100000 noReducerSha) {} (deployedAndRestarted {}) = some s ∧
    s.memory[str "m"]?.isSome = true ∧ s.Serving ∧ s.Confined fiveEnv.toJsonLib := by
  have hok : Allowed (step fiveEnv 100000 noReducerSha) (Unrestricted fiveEnv 100000 noReducerSha) {} (deployedAndRestarted {}) := by
    refine ⟨trivial, ?_, trivial⟩
    intro name _ caps hd
    have hmem := Std.ExtTreeMap.mem_toList_iff_getElem?_eq_some.2 hd
    rw [show Std.ExtTreeMap.toList _ = [(str "m", ({} : ModuleCapabilities))] by decide] at hmem
    cases List.mem_singleton.1 hmem
    rfl
  exact ⟨_, rfl, by decide, capabilities_kept fiveEnv 100000 noReducerSha {} _ _ hok rfl⟩

/-- Deployed read-only, the module may write once the server has been restarted. -/
theorem capabilities_dropped :
    ∃ s, run (step fiveEnv 100000 noReducerSha) {} (deployedAndRestarted { readOnly := true }) = some s ∧
      ¬ s.Serving ∧ ¬ s.Confined fiveEnv.toJsonLib := by
  have hrun : ∃ s ∈ run (step fiveEnv 100000 noReducerSha) {} (deployedAndRestarted { readOnly := true }),
      ∃ m ∈ s.memory[str "m"]?, s.deployed[str "m"]? = some { readOnly := true } ∧ m.capabilities.readOnly = false ∧
        (hostTableWrite fiveEnv.toJsonLib m.capabilities {} (str "t") (str "k") five).1 = 0 := by
    decide
  obtain ⟨s, hs, m, hm, hdep, hro, hwrite⟩ := hrun
  refine ⟨s, hs, fun h => ?_, fun h => ?_⟩
  · have := h _ m hm
    rw [hdep, Option.some.injEq] at this
    rw [← this] at hro
    cases hro
  · obtain ⟨caps, hcaps, -, hrefuses⟩ := h _ m hm
    rw [hdep] at hcaps
    cases hcaps
    have := (hrefuses rfl {} (str "t") (str "k") five).1
    rw [this] at hwrite
    cases hwrite

end Modules

end Wasm

end OriginDB
