import OriginDB.Wasm.CallEffect
import OriginDB.Wasm.Deploy
/-!
# A deploy that fails (`wasm_service_impl.cpp:67-114`, `wasm_engine.cpp:137-243`, `module_store.cpp:108-168`)

Until its hooks run a deploy changes nothing. Then `__init` and `__migrate` commit on their own; and when `Save` fails,
the module is unloaded by its name, whatever was served under it before, and files that have been replaced stay as they
are.

| here | there |
| --- | --- |
| `newModule`   | `LoadModule` up to the lookup of the module that is deployed (`wasm_engine.cpp:139-185`) |
| `passesGate`  | the version gate (`:187-198`) |
| `restores`    | the module of a name after `Initialize` (`module_store.cpp:52`), with its bytecode |
-/
namespace OriginDB

open JsonDoc ByteCodec Machine

namespace Wasm

/-! ## Up to the hooks -/

def newModule (bytecode version : Bytes) (caps : ModuleCapabilities) (ld : Loading) : Option WasmModule :=
  if ld.shutdown ∨ bytecode = [] then none
  else match ld.compiled with
    | .error _ => none
    | .ok described =>
      some { bytecode := bytecode, version := if version = [] then described.getD [] else version, capabilities := caps }

/-- Neither older than what is deployed, nor incomparable to it. -/
def passesGate (modules : StrMap WasmModule) (name : Bytes) (module : WasmModule) : Bool :=
  match modules[name]? with
  | none => true
  | some previous =>
    previous.version = [] || module.version = [] || (compareVersions module.version previous.version).any fun c => 0 ≤ c

theorem newModule_spec {bytecode version : Bytes} {caps : ModuleCapabilities} {ld : Loading} {module : WasmModule}
    (h : newModule bytecode version caps ld = some module) :
    ld.shutdown = false ∧ module.bytecode = bytecode ∧ module.capabilities = caps ∧
      (version ≠ [] → module.version = version) := by
  simp only [newModule] at h
  split at h
  · cases h
  · rename_i hno
    split at h
    · cases h
    · cases h
      exact ⟨by simpa using fun hs => hno (Or.inl hs), rfl, rfl, fun hne => if_neg hne⟩

section
variable (env : Env) (maxLag : Nat) {modules : StrMap WasmModule} {name bytecode version : Bytes} {caps : ModuleCapabilities}
  {ld : Loading} {module : WasmModule} (st : Store)

theorem loadModule_hooks (h : newModule bytecode version caps ld = some module) (hgate : passesGate modules name module = true) :
    loadModule env maxLag modules name bytecode version caps ld st = runHooks env maxLag modules name module ld st := by
  simp only [newModule] at h
  split at h
  · cases h
  · rename_i hno
    obtain ⟨hup, hbytes⟩ := not_or.1 hno
    cases hcomp : ld.compiled with
    | error e =>
      rw [hcomp] at h
      cases h
    | ok described =>
      rw [hcomp] at h
      cases h
      rw [loadModule, if_neg hup, if_neg hbytes, hcomp]
      simp only [passesGate] at hgate ⊢
      generalize (if version = [] then described.getD [] else version) = v at hgate ⊢
      cases hprev : modules[name]? with
      | none => rfl
      | some previous =>
        rw [hprev] at hgate
        simp only [Bool.or_eq_true, decide_eq_true_eq, or_assoc] at hgate ⊢
        split
        · rename_i hboth
          rcases hgate with hold | hnew | hcmp
          · exact absurd hold hboth.1
          · exact absurd hnew hboth.2
          · cases hc : compareVersions v previous.version with
            | none =>
              rw [hc] at hcmp
              cases hcmp
            | some c =>
              rw [hc, Option.any_some, decide_eq_true_eq] at hcmp
              simp only
              rw [if_neg (Int.not_lt.2 hcmp)]
        · rfl

theorem loadModule_refused (h : ∀ module, newModule bytecode version caps ld = some module → passesGate modules name module = false) :
    (∃ e, loadModule env maxLag modules name bytecode version caps ld st = .failed e st) ∨
      loadModule env maxLag modules name bytecode version caps ld st = .threw st := by
  rw [loadModule]
  split
  · exact Or.inl ⟨_, rfl⟩
  · rename_i hup
    split
    · exact Or.inl ⟨_, rfl⟩
    · rename_i hbytes
      cases hcomp : ld.compiled with
      | error e => exact Or.inl ⟨_, rfl⟩
      | ok described =>
        have hgate := h ⟨bytecode, if version = [] then described.getD [] else version, caps⟩
          (by rw [newModule, if_neg (not_or.2 ⟨hup, hbytes⟩), hcomp])
        simp only [passesGate] at hgate ⊢
        generalize (if version = [] then described.getD [] else version) = v at hgate ⊢
        cases hprev : modules[name]? with
        | none =>
          rw [hprev] at hgate
          cases hgate
        | some previous =>
          rw [hprev] at hgate
          simp only [Bool.or_eq_false_iff, decide_eq_false_iff_not] at hgate
          obtain ⟨⟨hold, hver⟩, hcmp⟩ := hgate
          simp only
          rw [if_pos ⟨hold, hver⟩]
          cases hc : compareVersions v previous.version with
          | none => exact Or.inr rfl
          | some c =>
            rw [hc, Option.any_some, decide_eq_false_iff_not] at hcmp
            simp only
            rw [if_pos (Int.not_le.1 hcmp)]
            exact Or.inl ⟨_, rfl⟩

end

/-! ## What a reboot restores -/

namespace ModuleStore

/-- Every manifest is for the directory it is in. -/
def Named (m : ModuleStore) : Prop :=
  ∀ (name : Bytes) (dir : ModuleDir) (manifest : Manifest), m.dirs[name]? = some dir → dir.manifest = some manifest →
    manifest.name = name

def restores (sha256 : Bytes → Bytes) (m : ModuleStore) (name : Bytes) : Option (Bytes × StoredModuleInfo) := do
  let rebooted := m.storeInitialize sha256
  let info ← rebooted.index[name]?
  let bytes ← rebooted.loadBytecode name
  return (bytes, info)

/-- What a directory is good for. -/
def dirRestores (sha256 : Bytes → Bytes) (dir : ModuleDir) : Option (Bytes × StoredModuleInfo) := do
  let (_, info) ← readDir sha256 dir
  let bytes ← dir.wasm
  return (bytes, info)

variable {sha256 : Bytes → Bytes} {m : ModuleStore}

theorem readDir_name (h : m.Named) {name : Bytes} {dir : ModuleDir} (hd : m.dirs[name]? = some dir) :
    readDir sha256 dir = (readDir sha256 dir).map fun p => (name, p.2) := by
  simp only [readDir]
  cases hman : dir.manifest with
  | none => rfl
  | some manifest =>
    cases dir.wasm with
    | none => rfl
    | some wasm =>
      simp only
      split
      · rw [h name dir manifest hd hman]
        rfl
      · rfl

/-- Each name is indexed from its own directory. -/
theorem index_storeInitialize (h : m.Named) (name : Bytes) :
    (m.storeInitialize sha256).index[name]? = m.dirs[name]?.bind fun dir => (readDir sha256 dir).map Prod.snd := by
  have hread : (m.dirs.toList.filterMap fun p => readDir sha256 p.2) =
      m.dirs.toList.filterMap fun p => ((readDir sha256 p.2).map Prod.snd).map fun info => (p.1, info) := by
    refine List.filterMap_congr fun p hp => ?_
    rw [Option.map_map]
    exact readDir_name h (Std.ExtTreeMap.mem_toList_iff_getElem?_eq_some.1 hp)
  rw [storeInitialize, hread]
  exact OrdMap.getElem?_insertAll_filterMap (List.Perm.refl _) (fun _ dir => (readDir sha256 dir).map Prod.snd) name

theorem restores_eq (h : m.Named) (name : Bytes) : m.restores sha256 name = m.dirs[name]?.bind (dirRestores sha256) := by
  have hindex : (m.storeInitialize sha256).index[name]? = _ := index_storeInitialize h name
  simp only [restores, loadBytecode, hindex]
  have hdirs : (m.storeInitialize sha256).dirs = m.dirs := rfl
  rw [hdirs]
  cases m.dirs[name]? with
  | none => rfl
  | some dir =>
    simp only [Option.bind_some, dirRestores]
    cases readDir sha256 dir <;> rfl

theorem wasm_of_readDir {dir : ModuleDir} {p : Bytes × StoredModuleInfo} (h : readDir sha256 dir = some p) :
    dir.wasm.isSome = true := by
  simp only [readDir] at h
  split at h
  · rename_i hwasm
    rw [hwasm]
    rfl
  · cases h

theorem dirRestores_eq_none {dir : ModuleDir} : dirRestores sha256 dir = none ↔ readDir sha256 dir = none := by
  rw [dirRestores]
  cases hr : readDir sha256 dir with
  | none => simp
  | some p =>
    obtain ⟨wasm, hwasm⟩ := Option.isSome_iff_exists.1 (wasm_of_readDir hr)
    simp [hwasm]

/-- What a reboot has to go on is what the directories are good for. -/
theorem rebooted (h : m.Named) (name : Bytes) :
    (m.storeInitialize sha256).index[name]? = (m.restores sha256 name).map Prod.snd ∧
      (m.storeInitialize sha256).loadBytecode name = (m.restores sha256 name).map Prod.fst := by
  have hindex : (m.storeInitialize sha256).index[name]? = _ := index_storeInitialize h name
  have hdirs : (m.storeInitialize sha256).dirs = m.dirs := rfl
  rw [loadBytecode, hindex, hdirs, restores_eq h]
  cases m.dirs[name]? with
  | none => exact ⟨rfl, rfl⟩
  | some dir =>
    simp only [Option.bind_some, dirRestores]
    cases hr : readDir sha256 dir with
    | none => exact ⟨rfl, rfl⟩
    | some p =>
      obtain ⟨wasm, hwasm⟩ := Option.isSome_iff_exists.1 (wasm_of_readDir hr)
      rw [hwasm]
      exact ⟨rfl, rfl⟩

theorem restores_insert (h : m.Named) {name : Bytes} {dir : ModuleDir}
    (hdir : ∀ manifest, dir.manifest = some manifest → manifest.name = name) :
    (∀ n, ({ m with dirs := m.dirs.insert name dir } : ModuleStore).restores sha256 n = m.restores sha256 n) ↔
      dirRestores sha256 dir = dirRestores sha256 (m.dirs[name]?.getD {}) := by
  have hnamed : ({ m with dirs := m.dirs.insert name dir } : ModuleStore).Named := by
    intro n d manifest hd hman
    simp only at hd
    rw [OrdMap.getElem?_insert] at hd
    split at hd
    · rename_i hn
      cases hd
      rw [hdir manifest hman, hn]
    · exact h n d manifest hd hman
  have hold : m.dirs[name]?.bind (dirRestores sha256) = dirRestores sha256 (m.dirs[name]?.getD {}) := by
    cases m.dirs[name]? <;> rfl
  constructor
  · intro hall
    have hn := hall name
    rw [restores_eq hnamed, restores_eq h, hold] at hn
    simpa using hn
  · intro heq n
    rw [restores_eq hnamed, restores_eq h]
    simp only
    rw [OrdMap.getElem?_insert]
    split
    · rename_i hn
      rw [← hn, hold, ← heq]
      rfl
    · rfl

end ModuleStore

/-- A `Save` that fails spares what the directory is good for. The old manifest goes with the bytes that are in place now
just if they are those it went with; a manifest that is cut off goes with none. -/
def SaveIo.Spares (sha256 : Bytes → Bytes) (dir : ModuleDir) : SaveIo → Prop
  | .noManifest wasm => match ModuleStore.readDir sha256 dir with
    | some _ => dir.wasm = some wasm
    | none => ∀ manifest ∈ dir.manifest, sha256 wasm ≠ manifest.sha256
  | .badManifest _ => ModuleStore.readDir sha256 dir = none
  | _ => True

section
variable {sha256 : Bytes → Bytes} {m m' : ModuleStore} {name version bytecode e : Bytes} {io : SaveIo}

theorem dirRestores_noManifest {dir : ModuleDir} {wasm : Bytes} :
    ModuleStore.dirRestores sha256 { dir with wasm := some wasm } = ModuleStore.dirRestores sha256 dir ↔
      (SaveIo.noManifest wasm).Spares sha256 dir := by
  simp only [SaveIo.Spares, ModuleStore.dirRestores, ModuleStore.readDir]
  cases dir.manifest with
  | none => simp
  | some manifest =>
    cases dir.wasm with
    | none => by_cases hnew : sha256 wasm = manifest.sha256 <;> simp [hnew]
    | some old =>
      by_cases hnew : sha256 wasm = manifest.sha256 <;> by_cases hold : sha256 old = manifest.sha256
      · simp [hnew, hold, eq_comm]
      · simp [hnew, hold]
      · have hne : old ≠ wasm := fun he => hnew (by rw [← he, hold])
        simp [hnew, hold, hne]
      · simp [hnew, hold]

/-- **A `Save` that fails** leaves the index alone, and what a reboot restores exactly when it spares the directory. -/
theorem save_failed (hnamed : m.Named) (h : m.save sha256 name version bytecode io = (.error e, m')) :
    m'.index = m.index ∧ ((∀ n, m'.restores sha256 n = m.restores sha256 n) ↔
      (validModuleName name = true → io.Spares sha256 (m.dirs[name]?.getD {}))) := by
  have hold : ∀ manifest, (m.dirs[name]?.getD {}).manifest = some manifest → manifest.name = name := by
    intro manifest hman
    cases hd : m.dirs[name]? with
    | none =>
      rw [hd] at hman
      cases hman
    | some dir =>
      rw [hd] at hman
      exact hnamed name dir manifest hd hman
  simp only [ModuleStore.save] at h
  split at h
  · rename_i hinvalid
    cases h
    exact ⟨rfl, by simp [hinvalid]⟩
  · rename_i hvalid
    have hvalid : validModuleName name = true := by simpa using hvalid
    rw [forall_prop_of_true hvalid]
    cases io with
    | ok | lost wasm written => cases h
    | noDirectory message =>
      cases h
      exact ⟨rfl, iff_of_true (fun _ => rfl) trivial⟩
    | notWritten | notRenamed message =>
      cases h
      exact ⟨rfl, iff_of_true ((ModuleStore.restores_insert hnamed hold).2 rfl) trivial⟩
    | noManifest wasm =>
      cases h
      refine ⟨rfl, (ModuleStore.restores_insert hnamed ?_).trans dirRestores_noManifest⟩
      exact hold
    | badManifest wasm =>
      cases h
      refine ⟨rfl, (ModuleStore.restores_insert hnamed (by simp)).trans ?_⟩
      rw [SaveIo.Spares, ← ModuleStore.dirRestores_eq_none]
      exact eq_comm

end

namespace Modules

/-! ## The condition -/

section
variable (env : Env) (maxLag : Nat) (sha256 : Bytes → Bytes) (s : Modules) (r : DeployRequest) (ld : Loading) (io : SaveIo)

/-- The module a deploy runs the hooks of, if it gets there. -/
def gated : Option WasmModule :=
  if r.name = [] ∨ r.bytecode = [] ∨ maxModuleBytes < r.bytecode.length then none
  else (newModule r.bytecode r.version r.capabilities ld).filter (passesGate s.memory r.name)

def initCall : Called WasmResult :=
  execute env maxLag ld.initIo r.capabilities r.name (str "__init") {} ld.init s.store

/-- `__migrate` runs on what `__init` has left. -/
def migrateCall : Called WasmResult :=
  execute env maxLag ld.migrateIo r.capabilities r.name (str "__migrate") {} ld.migrate (s.initCall env maxLag r ld).store

/-- The hook fails, and the deploy with it. -/
def fails : Called WasmResult → Bool
  | .returned result _ => !result.success
  | .threw _ => true

/-- **The condition**, by the step that fails: nothing happens before the hooks; a failing `__init` must leave no
trace; a failing `__migrate` must take back what `__init` has committed; and a failing `Save` must find `__init` without
a trace, no module in the place of the new one, and a directory that it spares. -/
def FailsClean : Prop :=
  (s.gated r ld).isSome = true →
    if fails (s.initCall env maxLag r ld) then ld.init.Quiet env.toJsonLib s.store r.capabilities
    else match s.memory[r.name]? with
      | some _ => fails (s.migrateCall env maxLag r ld) = true ∧
          ld.init.CreatesNone env.toJsonLib s.store r.capabilities ∧
          ld.migrate.CreatesNone env.toJsonLib (s.initCall env maxLag r ld).store r.capabilities ∧
          TakenBack env.toJsonLib s.store (ld.init.takes env.toJsonLib s.store r.capabilities)
            (ld.migrate.takes env.toJsonLib (s.initCall env maxLag r ld).store r.capabilities)
      | none => ld.init.Quiet env.toJsonLib s.store r.capabilities ∧
          (validModuleName r.name = true → io.Spares sha256 (s.disk.dirs[r.name]?.getD {}))

/-- The end of `DeployModule`, on what `LoadModule` comes to. -/
def settle : Loaded → Response × Modules
  | .threw store => ({ success := false, error := str "exception during module deployment" }, { s with store := store })
  | .failed error store => ({ success := false, error := r.name ++ str ": " ++ error }, { s with store := store })
  | .loaded memory store =>
    match s.disk.save sha256 r.name r.version r.bytecode io with
    | (.error e, disk) =>
      ({ success := false, error := str "failed to persist module: " ++ e },
        { s with memory := (unloadModule memory r.name).2, disk := disk, store := store })
    | (.ok _, disk) =>
      ({ success := true },
        { memory := memory, disk := disk, store := store, deployed := s.deployed.insert r.name r.capabilities })

end

/-- The module in memory, the index, what a reboot restores and the tables are the same. -/
structure Unchanged (sha256 : Bytes → Bytes) (s s' : Modules) : Prop where
  memory : s'.memory = s.memory
  index : s'.disk.index = s.disk.index
  reboot : ∀ name, s'.disk.restores sha256 name = s.disk.restores sha256 name
  tables : s.store.SameTables s'.store

/-! ## Each step -/

section
variable {env : Env} {maxLag : Nat} {sha256 : Bytes → Bytes} {s : Modules} {r : DeployRequest} {ld : Loading} {io : SaveIo}
  {module : WasmModule}

theorem deployModule_refused (h : s.gated r ld = none) :
    ∃ e, s.deployModule env maxLag sha256 r ld io = ({ success := false, error := e }, s) := by
  rw [deployModule]
  split
  · exact ⟨_, rfl⟩
  · rename_i hgiven
    split
    · exact ⟨_, rfl⟩
    · rename_i hsize
      rw [gated, if_neg (by simp_all)] at h
      have hgate : ∀ module, newModule r.bytecode r.version r.capabilities ld = some module →
          passesGate s.memory r.name module = false := by
        intro module hnew
        rw [hnew] at h
        simpa [Option.filter] using h
      rcases loadModule_refused env maxLag s.store hgate with ⟨e, hl⟩ | hl
      · rw [hl]
        exact ⟨_, rfl⟩
      · rw [hl]
        exact ⟨_, rfl⟩

theorem deployModule_gated (h : s.gated r ld = some module) : module.capabilities = r.capabilities ∧ ld.shutdown = false ∧
    s.deployModule env maxLag sha256 r ld io =
      s.settle sha256 r io (runHooks env maxLag s.memory r.name module ld s.store) := by
  rw [gated] at h
  split at h
  · cases h
  · rename_i hok
    obtain ⟨hname, hbytes, hsize⟩ : r.name ≠ [] ∧ r.bytecode ≠ [] ∧ ¬ maxModuleBytes < r.bytecode.length := by
      simpa only [not_or] using hok
    obtain ⟨hnew, hgate⟩ := Option.filter_eq_some_iff.1 h
    obtain ⟨hup, -, hcaps, -⟩ := newModule_spec hnew
    refine ⟨hcaps, hup, ?_⟩
    rw [deployModule, if_neg (by simp [hname, hbytes]), if_neg hsize, loadModule_hooks env maxLag s.store hnew hgate]
    rfl

/-- The hooks, one after the other. -/
theorem runHooks_cases (env : Env) (maxLag : Nat) (s : Modules) (hcaps : module.capabilities = r.capabilities) (hup : ld.shutdown = false) :
    (fails (s.initCall env maxLag r ld) = true ∧
      ((∃ e, runHooks env maxLag s.memory r.name module ld s.store = .failed e (s.initCall env maxLag r ld).store) ∨
        runHooks env maxLag s.memory r.name module ld s.store = .threw (s.initCall env maxLag r ld).store)) ∨
    (fails (s.initCall env maxLag r ld) = false ∧ s.memory[r.name]? = none ∧
      runHooks env maxLag s.memory r.name module ld s.store =
        .loaded (s.memory.insert r.name module) (s.initCall env maxLag r ld).store) ∨
    (fails (s.initCall env maxLag r ld) = false ∧ s.memory[r.name]?.isSome = true ∧
      ((fails (s.migrateCall env maxLag r ld) = true ∧
        ((∃ e, runHooks env maxLag s.memory r.name module ld s.store = .failed e (s.migrateCall env maxLag r ld).store) ∨
          runHooks env maxLag s.memory r.name module ld s.store = .threw (s.migrateCall env maxLag r ld).store)) ∨
      (fails (s.migrateCall env maxLag r ld) = false ∧ runHooks env maxLag s.memory r.name module ld s.store =
        .loaded (s.memory.insert r.name module) (s.migrateCall env maxLag r ld).store))) := by
  simp only [runHooks, hcaps, hup]
  have hinit : s.initCall env maxLag r ld =
    execute env maxLag ld.initIo r.capabilities r.name (str "__init") {} ld.init s.store := rfl
  rw [migrateCall, ← hinit]
  cases s.initCall env maxLag r ld with
  | threw s₁ => exact Or.inl ⟨rfl, Or.inr rfl⟩
  | returned result s₁ =>
    cases hsuc : result.success with
    | false =>
      refine Or.inl ⟨by simp [fails, hsuc], Or.inl ⟨str "__init failed: " ++ result.error, ?_⟩⟩
      simp [hsuc, Called.store]
    | true =>
      refine Or.inr ?_
      cases hprev : s.memory[r.name]? with
      | none => exact Or.inl ⟨by simp [fails, hsuc], rfl, by simp [hsuc, Called.store]⟩
      | some previous =>
        refine Or.inr ⟨by simp [fails, hsuc], rfl, ?_⟩
        simp only [Called.store, hsuc, Bool.true_eq_false, if_false]
        cases execute env maxLag ld.migrateIo r.capabilities r.name (str "__migrate") {} ld.migrate s₁ with
        | threw s₂ => exact Or.inl ⟨rfl, Or.inr rfl⟩
        | returned result₂ s₂ =>
          cases hsuc₂ : result₂.success with
          | false =>
            refine Or.inl ⟨by simp [fails, hsuc₂], Or.inl ⟨str "__migrate failed: " ++ result₂.error, ?_⟩⟩
            simp [hsuc₂]
          | true => exact Or.inr ⟨by simp [fails, hsuc₂], by simp [hsuc₂]⟩

theorem unchanged_store {store : Store} : Unchanged sha256 s { s with store := store } ↔ s.store.SameTables store :=
  ⟨fun h => h.tables, fun h => ⟨rfl, rfl, fun _ => rfl, h⟩⟩

/-- Where a hook fails, the tables are all there is to look at. -/
theorem settle_refused {l : Loaded} {store : Store} (h : (∃ e, l = .failed e store) ∨ l = .threw store) :
    Unchanged sha256 s (s.settle sha256 r io l).2 ↔ s.store.SameTables store := by
  rcases h with ⟨e, rfl⟩ | rfl <;> exact unchanged_store

/-- A module that was loaded, and could not be saved. -/
theorem settle_loaded (hnamed : s.disk.Named) {store : Store}
    (hf : (s.settle sha256 r io (.loaded (s.memory.insert r.name module) store)).1.success = false) :
    Unchanged sha256 s (s.settle sha256 r io (.loaded (s.memory.insert r.name module) store)).2 ↔
      s.memory[r.name]? = none ∧ s.store.SameTables store ∧
        (validModuleName r.name = true → io.Spares sha256 (s.disk.dirs[r.name]?.getD {})) := by
  simp only [settle] at hf ⊢
  cases hsave : s.disk.save sha256 r.name r.version r.bytecode io with
  | mk res disk =>
    cases res with
    | ok u =>
      rw [hsave] at hf
      cases hf
    | error e =>
      obtain ⟨hindex, hreboot⟩ := save_failed hnamed hsave
      simp only [unloadModule]
      constructor
      · rintro ⟨hmem, -, hrest, htabs⟩
        refine ⟨?_, htabs, hreboot.1 hrest⟩
        rw [← hmem, OrdMap.getElem?_erase, if_pos rfl]
      · rintro ⟨hnone, htabs, hspares⟩
        refine ⟨?_, hindex, hreboot.2 hspares, htabs⟩
        refine Std.ExtTreeMap.ext_getElem? fun n => ?_
        rw [OrdMap.getElem?_erase, OrdMap.getElem?_insert]
        split
        · rename_i hn
          rw [← hn, hnone]
        · rfl

/-- Both hooks have run. -/
theorem hooks_sameTables_iff : s.store.SameTables (s.migrateCall env maxLag r ld).store ↔
    ld.init.CreatesNone env.toJsonLib s.store r.capabilities ∧
      ld.migrate.CreatesNone env.toJsonLib (s.initCall env maxLag r ld).store r.capabilities ∧
      TakenBack env.toJsonLib s.store (ld.init.takes env.toJsonLib s.store r.capabilities)
        (ld.migrate.takes env.toJsonLib (s.initCall env maxLag r ld).store r.capabilities) := by
  by_cases h₁ : ld.init.CreatesNone env.toJsonLib s.store r.capabilities
  · have ht₁ : TakenIn _ _ _ (s.initCall env maxLag r ld).store :=
      execute_takes env maxLag ld.initIo r.name r.capabilities (str "__init") ld.init s.store h₁
    by_cases h₂ : ld.migrate.CreatesNone env.toJsonLib (s.initCall env maxLag r ld).store r.capabilities
    · have ht₂ : TakenIn _ _ _ (s.migrateCall env maxLag r ld).store :=
        execute_takes env maxLag ld.migrateIo r.name r.capabilities (str "__migrate") ld.migrate _ h₂
      rw [ht₁.sameTables_trans_iff ht₂]
      simp [h₁, h₂]
    · refine iff_of_false ?_ fun h => h₂ h.2.1
      obtain ⟨n, hnone, hsome⟩ := execute_creates env maxLag ld.migrateIo r.name r.capabilities (str "__migrate") ld.migrate _ h₂
      have hbefore := ht₁.isSome_getTable n
      rw [hnone] at hbefore
      exact Store.not_sameTables_of_created (Option.isSome_eq_false_iff.1 hbefore.symm |> Option.isNone_iff_eq_none.1) hsome
  · refine iff_of_false ?_ fun h => h₁ h.1
    obtain ⟨n, hnone, hsome⟩ := execute_creates env maxLag ld.initIo r.name r.capabilities (str "__init") ld.init s.store h₁
    -- a table that has been created is not dropped
    exact Store.not_sameTables_of_created hnone
      (execute_keeps env maxLag ld.migrateIo r.name r.capabilities (str "__migrate") ld.migrate _ hsome)

end

/-- **A deploy that fails changes nothing exactly when** the step at which it fails, and what came before it, left nothing
behind. -/
theorem failed_deploy_iff (env : Env) (maxLag : Nat) (sha256 : Bytes → Bytes) (s : Modules) (hnamed : s.disk.Named)
    (r : DeployRequest) (ld : Loading) (io : SaveIo) (hf : (s.deployModule env maxLag sha256 r ld io).1.success = false) :
    Unchanged sha256 s (s.deployModule env maxLag sha256 r ld io).2 ↔ s.FailsClean env maxLag sha256 r ld io := by
  cases hg : s.gated r ld with
  | none =>
    obtain ⟨e, he⟩ : ∃ e, s.deployModule env maxLag sha256 r ld io = ({ success := false, error := e }, s) :=
      deployModule_refused hg
    rw [he]
    refine iff_of_true ⟨rfl, rfl, fun _ => rfl, fun _ => rfl⟩ fun hsome => ?_
    rw [hg] at hsome
    cases hsome
  | some module =>
    obtain ⟨hcaps, hup, heq⟩ : _ ∧ _ ∧ s.deployModule env maxLag sha256 r ld io = _ := deployModule_gated hg
    rw [heq] at hf ⊢
    rw [FailsClean, hg, forall_prop_of_true (Option.isSome_some)]
    have hquiet := execute_sameTables_iff env maxLag ld.initIo r.name r.capabilities (str "__init") ld.init s.store
    rcases runHooks_cases env maxLag s hcaps hup with ⟨hinit, hl⟩ | ⟨hinit, hnone, hl⟩ |
      ⟨hinit, hsome, ⟨hmig, hl⟩ | ⟨hmig, hl⟩⟩
    · -- `__init` fails
      rw [settle_refused hl, if_pos hinit]
      exact hquiet
    · -- `Save` fails, and there was no module before
      rw [hl] at hf ⊢
      rw [settle_loaded hnamed hf, if_neg (by simp [hinit]), hnone]
      simp only [true_and]
      exact and_congr hquiet Iff.rfl
    · -- `__migrate` fails
      obtain ⟨previous, hprev⟩ := Option.isSome_iff_exists.1 hsome
      rw [settle_refused hl, if_neg (by simp [hinit]), hprev, hooks_sameTables_iff]
      simp [hmig]
    · -- `Save` fails, and the module before goes with the new one
      obtain ⟨previous, hprev⟩ := Option.isSome_iff_exists.1 hsome
      rw [hl] at hf ⊢
      rw [settle_loaded hnamed hf, if_neg (by simp [hinit]), hprev]
      simp [hmig]

/-! ## The store of a server -/

section
variable {env : Env} {maxLag : Nat} {sha256 : Bytes → Bytes} {s s' : Modules}

theorem named_deployModule (h : s.disk.Named) (r : DeployRequest) (ld : Loading) (io : SaveIo) :
    (s.deployModule env maxLag sha256 r ld io).2.disk.Named := by
  simp only [deployModule]
  split
  · exact h
  · split
    · exact h
    · split
      · exact h
      · exact h
      · cases hsave : s.disk.save sha256 r.name r.version r.bytecode io with
        | mk res disk =>
          have hdisk : disk.Named := by
            intro name dir manifest hd hman
            rcases manifest_save hsave hd hman with ⟨dir₀, hd₀, hman₀⟩ | ⟨-, rfl, hname⟩
            · exact h name dir₀ manifest hd₀ hman₀
            · exact hname
          cases res <;> exact hdisk

theorem named_step {l : Label} (h : s.disk.Named) (hs : step env maxLag sha256 s l = some s') : s'.disk.Named := by
  cases l with
  | deploy r ld io =>
    cases hs
    exact named_deployModule h r ld io
  | undeploy name kept =>
    cases hs
    intro n dir manifest hd hman
    obtain ⟨dir₀, hd₀, hman₀⟩ := manifest_remove hd hman
    exact h n dir₀ manifest hd₀ hman₀
  | restart store loads =>
    cases hs
    have hdirs : (s.restart env maxLag sha256 store loads).disk.dirs = s.disk.dirs := by
      unfold restart
      simp only
      split <;> rfl
    intro n dir manifest hd hman
    rw [hdirs] at hd
    exact h n dir manifest hd hman

/-- Every server that started with an empty module directory has such a store. -/
theorem named_of_run {store : Store} {ls : List Label} (hrun : run (step env maxLag sha256) { store := store } ls = some s) :
    s.disk.Named := by
  have hall : Allowed (step env maxLag sha256) (fun _ _ => True) { store := store } ls := Allowed.of_forall fun _ _ _ => trivial
  refine run_invariant (fun s => s.disk.Named) (fun _ _ _ h _ hs => named_step h hs) ?_ hall hrun
  intro name dir manifest hd
  simp at hd

theorem restoreModules_congr {disk disk' : ModuleStore} (h : ∀ name, disk'.loadBytecode name = disk.loadBytecode name)
    (loads : Bytes → Loading) (l : List (Bytes × StoredModuleInfo)) (memory : StrMap WasmModule) (store : Store) :
    restoreModules env maxLag disk' loads l memory store = restoreModules env maxLag disk loads l memory store := by
  induction l generalizing memory store with
  | nil => rfl
  | cons p rest ih =>
    obtain ⟨name, info⟩ := p
    simp only [restoreModules, h, ih]

/-- After a deploy that has changed nothing, a restart serves what it would have served before. -/
theorem Unchanged.restart (h : Unchanged sha256 s s') (hs : s.disk.Named) (hs' : s'.disk.Named) (store : Store)
    (loads : Bytes → Loading) :
    (s'.restart env maxLag sha256 store loads).memory = (s.restart env maxLag sha256 store loads).memory ∧
      (s'.restart env maxLag sha256 store loads).store = (s.restart env maxLag sha256 store loads).store := by
  have hindex : (s'.disk.storeInitialize sha256).index = (s.disk.storeInitialize sha256).index := by
    refine Std.ExtTreeMap.ext_getElem? fun n => ?_
    rw [(ModuleStore.rebooted hs' n).1, (ModuleStore.rebooted hs n).1, h.reboot]
  have hbytes : ∀ n, (s'.disk.storeInitialize sha256).loadBytecode n = (s.disk.storeInitialize sha256).loadBytecode n := by
    intro n
    rw [(ModuleStore.rebooted hs' n).2, (ModuleStore.rebooted hs n).2, h.reboot]
  simp only [Modules.restart, hindex, restoreModules_congr hbytes]
  split <;> exact ⟨rfl, rfl⟩

end

/-! ## A module that is served, and a second version of it -/

def firstVersion : DeployRequest := { name := str "m", bytecode := noReducer, version := str "1.0" }

def secondVersion : DeployRequest := { name := str "m", bytecode := noReducer, version := str "2.0" }

/-- The first version has been deployed. -/
def served : Modules := (deployModule fiveEnv 100000 noReducerSha {} firstVersion {} .ok).2

theorem served_named : served.disk.Named :=
  named_deployModule (fun name dir manifest hd => by simp at hd) firstVersion {} .ok

theorem compareVersions_second : compareVersions (str "2.0") (str "1.0") = some 1 := by
  rw [compareVersions, show versionSegments (str "2.0") = [[50], [48]] by decide,
    show versionSegments (str "1.0") = [[49], [48]] by decide, compareSegments,
    show compareSegment [50] [49] = some 1 by decide]
  rfl

/-- The second version passes the gate. -/
theorem served_gated (ld : Loading) (hup : ld.shutdown = false) (hcomp : ld.compiled = .ok none) :
    served.gated secondVersion ld = some { bytecode := noReducer, version := str "2.0", capabilities := {} } := by
  have hmem : served.memory[str "m"]? = some { bytecode := noReducer, version := str "1.0", capabilities := {} } := by
    decide
  have hnew : newModule secondVersion.bytecode secondVersion.version secondVersion.capabilities ld =
      some { bytecode := noReducer, version := str "2.0", capabilities := {} } := by
    rw [newModule, if_neg (by rw [hup]; decide), hcomp]
    rfl
  rw [gated, if_neg (by decide), hnew, Option.filter_some, if_pos]
  rw [passesGate, show secondVersion.name = str "m" from rfl, hmem]
  simp only [compareVersions_second]
  rfl

/-- `__init` of the second version writes a row and answers -1. -/
theorem failed_deploy_init :
    served.memory[str "m"]?.map WasmModule.version = some (str "1.0") ∧
      Unchanged noReducerSha served (served.deployModule fiveEnv 100000 noReducerSha secondVersion
        { init := .write (str "t") (str "k") five fun _ => .returns (-1) } .ok).2 := by
  refine ⟨by decide, (failed_deploy_iff fiveEnv 100000 noReducerSha served served_named _ _ _ ?_).2 fun _ => ?_⟩
  · rw [(deployModule_gated (served_gated _ rfl rfl)).2.2]
    decide
  · rw [if_pos (by decide)]
    exact ⟨fun h => absurd h (by decide), rfl⟩

/-- The bytecode of the second version cannot be written, and nothing is served any more. -/
theorem failed_deploy_unloads :
    (served.deployModule fiveEnv 100000 noReducerSha secondVersion {} .notWritten).1.success = false ∧
      served.memory[str "m"]?.map WasmModule.version = some (str "1.0") ∧
      (served.deployModule fiveEnv 100000 noReducerSha secondVersion {} .notWritten).2.memory[str "m"]? = none ∧
      ¬ Unchanged noReducerSha served (served.deployModule fiveEnv 100000 noReducerSha secondVersion {} .notWritten).2 := by
  have hbefore : served.memory[str "m"]?.map WasmModule.version = some (str "1.0") := by decide
  have hafter : (served.deployModule fiveEnv 100000 noReducerSha secondVersion {} .notWritten).2.memory[str "m"]? = none := by
    rw [(deployModule_gated (served_gated {} rfl rfl)).2.2]
    decide
  refine ⟨?_, hbefore, hafter, fun h => ?_⟩
  · rw [(deployModule_gated (served_gated {} rfl rfl)).2.2]
    decide
  · rw [h.memory] at hafter
    rw [hafter] at hbefore
    cases hbefore

end Modules

end Wasm

end OriginDB
