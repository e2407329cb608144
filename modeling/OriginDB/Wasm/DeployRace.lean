import OriginDB.Wasm.FailedDeploy
import OriginDB.Wasm.Versions
/-!
# Deploys of one name at the same time (`wasm_engine.cpp:177-227`, `wasm_service_impl.cpp:71-98`)

`LoadModule` reads the module that is deployed and lets go of `modules_mutex_`; it takes it again for the publication, when
`__init` and `__migrate` are through, and looks at the version no more. `Save` comes after that, under a mutex of its own.

| here | there |
| --- | --- |
| `arrive`  | `DeployModule`, its own checks (`wasm_service_impl.cpp:52-66`) |
| `gate`    | `LoadModule` up to the version gate (`wasm_engine.cpp:139-198`) |
| `hooks`   | `__init`, and `__migrate` where a module was deployed (`:200-221`): what they come to |
| `publish` | `modules_[name] = module` (`:223-226`) |
| `save`    | `Save` (`module_store.cpp:108`), and `UnloadModule` if it fails |

What the hooks do to the tables, among calls of the module, is left to them. `published` and `serving` are history: the versions
in the order of their publication, and the request whose module is the one that is served.
-/
namespace OriginDB

open JsonDoc ByteCodec Machine

namespace Wasm

/-- Where a `DeployModule` is. -/
inductive DeployPhase where
  | arrived
  /-- It has passed the gate, when `seen` modules had been published. -/
  | gated (module : WasmModule) (seen : Nat)
  | ready (module : WasmModule) (seen : Nat)
  | published
  | returned (success : Bool)
deriving DecidableEq

structure Deploying where
  bytecode : Bytes
  version : Bytes
  caps : ModuleCapabilities
  phase : DeployPhase
deriving DecidableEq

structure DeployRace where
  memory : StrMap WasmModule := ∅
  disk : ModuleStore := {}
  requests : List Deploying := []
  published : List Bytes := []
  serving : Option Nat := none

namespace DeployRace

inductive Label where
  | arrive (bytecode version : Bytes) (caps : ModuleCapabilities)
  | gate (i : Nat) (ld : Loading)
  | hooks (i : Nat) (ok : Bool)
  | publish (i : Nat)
  | save (i : Nat) (io : SaveIo)

def phase? (s : DeployRace) (i : Nat) : Option DeployPhase := s.requests[i]?.map Deploying.phase

def put (s : DeployRace) (i : Nat) (p : DeployPhase) : DeployRace :=
  { s with requests := s.requests.modify i fun d => { d with phase := p } }

section
variable (sha256 : Bytes → Bytes) (name : Bytes)

def step (s : DeployRace) : Label → Option DeployRace
  | .arrive bytecode version caps =>
    let refused := name = [] ∨ bytecode = [] ∨ maxModuleBytes < bytecode.length
    some { s with requests := s.requests ++ [⟨bytecode, version, caps, if refused then .returned false else .arrived⟩] }
  | .gate i ld => s.requests[i]?.bind fun d =>
    match d.phase with
    | .arrived => some (s.put i (match newModule d.bytecode d.version d.caps ld with
        | none => .returned false
        | some module => if passesGate s.memory name module then .gated module s.published.length else .returned false))
    | _ => none
  | .hooks i ok => s.requests[i]?.bind fun d =>
    match d.phase with
    | .gated module seen => some (s.put i (if ok then .ready module seen else .returned false))
    | _ => none
  | .publish i => s.requests[i]?.bind fun d =>
    match d.phase with
    | .ready module _ => some { s.put i .published with
        memory := s.memory.insert name module, published := s.published ++ [module.version], serving := some i }
    | _ => none
  | .save i io => s.requests[i]?.bind fun d =>
    match d.phase with
    | .published =>
      match s.disk.save sha256 name d.version d.bytecode io with
      | (.ok _, disk) => some { s.put i (.returned true) with disk := disk }
      | (.error _, disk) => some { s.put i (.returned false) with disk := disk, memory := (unloadModule s.memory name).2 }
    | _ => none

/-- A server with nothing under the name, or with a module that it has loaded from its store. -/
def boot : Option WasmModule → DeployRace
  | none => {}
  | some m => { memory := (∅ : StrMap WasmModule).insert name m
                disk := (ModuleStore.save sha256 {} name m.version m.bytecode .ok).2 }

/-! ## The property and the condition -/

/-- No version is published after a newer one. -/
def NeverBack (s : DeployRace) : Prop :=
  s.published.Pairwise fun earlier later => (compareVersions later earlier).any (fun c => 0 ≤ c) = true

/-- The store has the module of the name that is served, and nothing else under it. -/
def Agrees (s : DeployRace) : Prop :=
  s.disk.index[name]? = s.memory[name]?.map (fun m => ⟨m.version, sha256 m.bytecode⟩) ∧
    s.disk.dirs[name]? = s.memory[name]?.map fun m =>
      { wasm := some m.bytecode, manifest := some { name := name, version := m.version, sha256 := sha256 m.bytecode } }

def Finished (s : DeployRace) : Prop := ∀ d ∈ s.requests, ∃ success, d.phase = .returned success

/-- Versions of `n` numbers each, and `Save` goes well. -/
def Within (n : Nat) (_ : DeployRace) : Label → Prop
  | .arrive _ version _ => Dotted n version
  | .save _ io => io = .ok
  | _ => True

/-- A module is published if no newer one has been since it passed the gate, and saved if it is the one that is served, or
the one that is served has still to be saved. -/
def Timely (s : DeployRace) : Label → Prop
  | .publish i =>
    match s.phase? i with
    | some (.ready module seen) =>
      ∀ version ∈ s.published.drop seen, (compareVersions module.version version).any (fun c => 0 ≤ c) = true
    | _ => True
  | .save i _ => ∀ j ∈ s.serving, j = i ∨ s.phase? j = some .published
  | _ => True

end

/-! ## The invariant -/

/-- What the store has after a `Save` of the module. -/
structure Holds (sha256 : Bytes → Bytes) (name : Bytes) (disk : ModuleStore) (version bytecode : Bytes) : Prop where
  index : disk.index[name]? = some ⟨version, sha256 bytecode⟩
  dir : disk.dirs[name]? =
    some { wasm := some bytecode, manifest := some { name := name, version := version, sha256 := sha256 bytecode } }

/-- How far a request is: what has been published by then is no newer than its module. -/
def On (n : Nat) (published : List Bytes) (d : Deploying) : DeployPhase → Prop
  | .gated module seen | .ready module seen =>
    module.version = d.version ∧ module.bytecode = d.bytecode ∧ Dotted n module.version ∧ seen ≤ published.length ∧
      ∀ version ∈ published.take seen, versionNumbers version ≤ versionNumbers module.version
  | .arrived => Dotted n d.version
  | _ => True

/-- Who put there what is served, and whether it is saved. -/
inductive Served (sha256 : Bytes → Bytes) (name : Bytes) (s : DeployRace) : Prop where
  | booted (none : s.published = []) (agrees : s.Agrees sha256 name) (unsaved : ∀ d ∈ s.requests, d.phase ≠ .published)
  | deployed (i : Nat) (d : Deploying) (m : WasmModule) (serving : s.serving = some i) (request : s.requests[i]? = some d)
      (memory : s.memory[name]? = some m) (version : m.version = d.version) (bytecode : m.bytecode = d.bytecode)
      (last : s.published.getLast? = some m.version)
      (saved : d.phase = .published ∨ Holds sha256 name s.disk d.version d.bytecode)

structure Inv (sha256 : Bytes → Bytes) (name : Bytes) (n : Nat) (s : DeployRace) : Prop where
  dotted : ∀ version ∈ s.published, Dotted n version
  sorted : s.published.Pairwise fun earlier later => versionNumbers earlier ≤ versionNumbers later
  requests : ∀ (i : Nat) (d : Deploying), s.requests[i]? = some d → On n s.published d d.phase
  served : Served sha256 name s

section
variable {sha256 : Bytes → Bytes} {name : Bytes} {n : Nat} {s s' : DeployRace} {i : Nat} {d : Deploying} {p : DeployPhase}

theorem getElem?_put (s : DeployRace) (i j : Nat) (p : DeployPhase) : (s.put i p).requests[j]? =
    if i = j then s.requests[j]?.map fun d => { d with phase := p } else s.requests[j]? := by
  rw [put, List.getElem?_modify]
  by_cases h : i = j
  · simp [h]
  · simp [h]

theorem On.append {published : List Bytes} (h : On n published d p) (version : Bytes) : On n (published ++ [version]) d p := by
  cases p with
  | gated module seen | ready module seen =>
    obtain ⟨hver, hbytes, hdot, hseen, hle⟩ := h
    refine ⟨hver, hbytes, hdot, by simp; omega, ?_⟩
    rwa [List.take_append_of_le_length hseen]
  | _ => exact h

/-- The other requests are where they were. -/
theorem on_put (h : ∀ (j : Nat) (d : Deploying), s.requests[j]? = some d → On n s.published d d.phase)
    (hd : s.requests[i]? = some d) (hp : On n s.published { d with phase := p } p) :
    ∀ (j : Nat) (d' : Deploying), (s.put i p).requests[j]? = some d' → On n s.published d' d'.phase := by
  intro j d' hj
  rw [getElem?_put] at hj
  split at hj
  · rename_i hij
    rw [← hij, hd] at hj
    cases hj
    exact hp
  · exact h j d' hj

/-- Nor does what is served change when a request goes on that has nothing published to save. -/
theorem Served.put (h : Served sha256 name s) (hd : s.requests[i]? = some d) (hnot : d.phase ≠ .published)
    (hp : p ≠ .published) : Served sha256 name (s.put i p) := by
  cases h with
  | booted hnone hagrees hunsaved =>
    refine .booted hnone hagrees fun d' hd' => ?_
    obtain ⟨j, hj⟩ := List.mem_iff_getElem?.1 hd'
    rw [getElem?_put] at hj
    split at hj
    · obtain ⟨d₀, -, rfl⟩ := Option.map_eq_some_iff.1 hj
      exact hp
    · exact hunsaved d' (List.mem_of_getElem? hj)
  | deployed j d₀ m hserving hreq hmem hver hbytes hlast hsaved =>
    by_cases hij : i = j
    · subst hij
      rw [hd] at hreq
      cases hreq
      refine .deployed i { d with phase := p } m hserving ?_ hmem hver hbytes hlast (Or.inr ?_)
      · rw [getElem?_put, if_pos rfl, hd]
        rfl
      · exact hsaved.resolve_left hnot
    · refine .deployed j d₀ m hserving ?_ hmem hver hbytes hlast hsaved
      rw [getElem?_put, if_neg hij]
      exact hreq

theorem le_last {published : List Bytes} (h : published.Pairwise fun a b => versionNumbers a ≤ versionNumbers b) {last : Bytes}
    (hlast : published.getLast? = some last) : ∀ version ∈ published, versionNumbers version ≤ versionNumbers last := by
  obtain ⟨before, rfl⟩ := List.getLast?_eq_some_iff.1 hlast
  intro version hmem
  rcases List.mem_append.1 hmem with hb | hl
  · exact (List.pairwise_append.1 h).2.2 version hb last (List.mem_singleton.2 rfl)
  · rw [List.mem_singleton.1 hl]

/-- A module that passes the gate is no older than anything that has been published. -/
theorem Inv.gate (h : Inv sha256 name n s) {module : WasmModule} (hdot : Dotted n module.version)
    (hgate : passesGate s.memory name module = true) :
    ∀ version ∈ s.published, versionNumbers version ≤ versionNumbers module.version := by
  intro version hmem
  cases h.served with
  | booted hnone _ _ =>
    rw [hnone] at hmem
    cases hmem
  | deployed i d m _ _ hmemory _ _ hlast _ =>
    have hold : Dotted n m.version := h.dotted _ (List.mem_of_getLast? hlast)
    refine (le_last h.sorted hlast version hmem).trans ?_
    rw [passesGate, hmemory] at hgate
    simpa [hold.nonempty, hdot.nonempty, compareVersions_nonneg hdot hold] using hgate

theorem inv_arrive (h : Inv sha256 name n s) {bytecode version : Bytes} {caps : ModuleCapabilities} (hin : Dotted n version)
    (hs : step sha256 name s (.arrive bytecode version caps) = some s') : Inv sha256 name n s' := by
  simp only [step, Option.some.injEq] at hs
  subst hs
  generalize hp : (if name = [] ∨ bytecode = [] ∨ maxModuleBytes < bytecode.length then DeployPhase.returned false
    else .arrived) = p
  have hphase : p = .returned false ∨ p = .arrived := by
    rw [← hp]
    split
    · exact Or.inl rfl
    · exact Or.inr rfl
  refine ⟨h.dotted, h.sorted, fun j d hj => ?_, ?_⟩
  · simp only at hj
    rcases Nat.lt_or_ge j s.requests.length with hlt | hge
    · rw [List.getElem?_append_left hlt] at hj
      exact h.requests j d hj
    · rw [List.getElem?_append_right hge, List.getElem?_singleton] at hj
      split at hj
      · cases hj
        rcases hphase with rfl | rfl
        · trivial
        · exact hin
      · cases hj
  · cases h.served with
    | booted hnone hagrees hunsaved =>
      refine .booted hnone hagrees fun d hd => ?_
      rcases List.mem_append.1 hd with hd | hd
      · exact hunsaved d hd
      · rw [List.mem_singleton.1 hd]
        rcases hphase with rfl | rfl <;> simp
    | deployed j d m hserving hreq hmem hver hbytes hlast hsaved =>
      refine .deployed j d m hserving ?_ hmem hver hbytes hlast hsaved
      have hlt : j < s.requests.length := (List.getElem?_eq_some_iff.1 hreq).1
      simp only
      rw [List.getElem?_append_left hlt]
      exact hreq

theorem inv_gate (h : Inv sha256 name n s) {ld : Loading} (hs : step sha256 name s (.gate i ld) = some s') :
    Inv sha256 name n s' := by
  simp only [step] at hs
  obtain ⟨d, hd, hs⟩ := Option.bind_eq_some_iff.1 hs
  have hon := h.requests i d hd
  cases hphase : d.phase <;> rw [hphase] at hs hon <;> cases hs
  have hnot : d.phase ≠ .published := by simp [hphase]
  have hdot : Dotted n d.version := hon
  refine ⟨h.dotted, h.sorted, on_put h.requests hd ?_, h.served.put hd hnot ?_⟩
  · cases hnew : newModule d.bytecode d.version d.caps ld with
    | none => trivial
    | some module =>
      obtain ⟨-, hbytes, -, hver⟩ := newModule_spec hnew
      have hver := hver hdot.nonempty
      simp only
      split
      · rename_i hgate
        have hdot' : Dotted n module.version := by rw [hver]; exact hdot
        refine ⟨hver, hbytes, hdot', Nat.le_refl _, fun version hmem => ?_⟩
        exact h.gate hdot' hgate version (List.mem_of_mem_take hmem)
      · trivial
  · cases newModule d.bytecode d.version d.caps ld with
    | none => simp
    | some module =>
      simp only
      split <;> simp

theorem inv_hooks (h : Inv sha256 name n s) {ok : Bool} (hs : step sha256 name s (.hooks i ok) = some s') :
    Inv sha256 name n s' := by
  simp only [step] at hs
  obtain ⟨d, hd, hs⟩ := Option.bind_eq_some_iff.1 hs
  have hon := h.requests i d hd
  cases hphase : d.phase <;> rw [hphase] at hs hon <;> cases hs
  have hnot : d.phase ≠ .published := by simp [hphase]
  refine ⟨h.dotted, h.sorted, on_put h.requests hd ?_, h.served.put hd hnot ?_⟩
  · cases ok with
    | false => trivial
    | true => exact hon
  · cases ok <;> simp

theorem inv_publish (h : Inv sha256 name n s) (hok : s.Timely (.publish i)) (hs : step sha256 name s (.publish i) = some s') :
    Inv sha256 name n s' := by
  simp only [step] at hs
  obtain ⟨d, hd, hs⟩ := Option.bind_eq_some_iff.1 hs
  have hon := h.requests i d hd
  cases hphase : d.phase <;> rw [hphase] at hs hon <;> cases hs
  rename_i module seen
  obtain ⟨hver, hbytes, hdot, hseen, hle⟩ := hon
  simp only [Timely, phase?, hd, Option.map_some, hphase] at hok
  -- what was published up to the gate, and what has been since
  have hall : ∀ version ∈ s.published, versionNumbers version ≤ versionNumbers module.version := by
    intro version hmem
    rw [← List.take_append_drop seen s.published] at hmem
    rcases List.mem_append.1 hmem with hm | hm
    · exact hle version hm
    · exact (compareVersions_nonneg hdot (h.dotted version (List.mem_of_mem_drop hm))).1 (hok version hm)
  refine ⟨fun version hmem => ?_, ?_, fun j d' hj => ?_, ?_⟩
  · rcases List.mem_append.1 hmem with hm | hm
    · exact h.dotted version hm
    · rw [List.mem_singleton.1 hm]
      exact hdot
  · refine List.pairwise_append.2 ⟨h.sorted, List.pairwise_singleton _ _, fun version hm last hl => ?_⟩
    rw [List.mem_singleton.1 hl]
    exact hall version hm
  · exact (on_put (p := .published) h.requests hd trivial j d' hj).append module.version
  · refine .deployed i { d with phase := .published } module rfl ?_ (by simp) hver hbytes (by simp) (Or.inl rfl)
    simp only
    rw [getElem?_put, if_pos rfl, hd]
    rfl

/-- What `Save` leaves when it goes well. -/
theorem holds_save (sha256 : Bytes → Bytes) (hname : validModuleName name = true) (disk : ModuleStore) (version bytecode : Bytes) :
    ∃ disk', disk.save sha256 name version bytecode .ok = (.ok (), disk') ∧ Holds sha256 name disk' version bytecode := by
  refine ⟨_, by rw [ModuleStore.save, if_neg (by simp [hname])], ?_, ?_⟩
  · simp
  · simp

theorem inv_save (hname : validModuleName name = true) (h : Inv sha256 name n s) (hok : s.Timely (.save i .ok))
    (hs : step sha256 name s (.save i .ok) = some s') : Inv sha256 name n s' := by
  simp only [step] at hs
  obtain ⟨d, hd, hs⟩ := Option.bind_eq_some_iff.1 hs
  cases hphase : d.phase <;> rw [hphase] at hs
  case published =>
    obtain ⟨disk, hsave, hholds⟩ := holds_save sha256 hname s.disk d.version d.bytecode
    rw [hsave] at hs
    cases hs
    refine ⟨h.dotted, h.sorted, on_put (p := .returned true) h.requests hd trivial, ?_⟩
    cases h.served with
    | booted _ _ hunsaved => exact absurd hphase (hunsaved d (List.mem_of_getElem? hd))
    | deployed j d₀ m hserving hreq hmem hver hbytes hlast hsaved =>
      by_cases hij : i = j
      · subst hij
        rw [hd] at hreq
        cases hreq
        refine .deployed i { d with phase := .returned true } m hserving ?_ hmem hver hbytes hlast (Or.inr hholds)
        simp only
        rw [getElem?_put, if_pos rfl, hd]
        rfl
      · -- the one that is served comes later
        have hlater : s.phase? j = some .published := (hok j hserving).resolve_left fun he => hij he.symm
        rw [phase?, hreq, Option.map_some, Option.some.injEq] at hlater
        refine .deployed j d₀ m hserving ?_ hmem hver hbytes hlast (Or.inl hlater)
        simp only
        rw [getElem?_put, if_neg hij]
        exact hreq
  all_goals cases hs

theorem Inv.step {l : Label} (hname : validModuleName name = true) (h : Inv sha256 name n s) (hin : Within n s l)
    (hok : s.Timely l) (hs : step sha256 name s l = some s') : Inv sha256 name n s' := by
  cases l with
  | arrive bytecode version caps => exact inv_arrive h hin hs
  | gate i ld => exact inv_gate h hs
  | hooks i ok => exact inv_hooks h hs
  | publish i => exact inv_publish h hok hs
  | save i io =>
    have hio : io = .ok := hin
    subst hio
    exact inv_save hname h hok hs

theorem Inv.boot (hname : validModuleName name = true) (n : Nat) (m : Option WasmModule) :
    Inv sha256 name n (boot sha256 name m) := by
  cases m with
  | none =>
    refine ⟨by simp [DeployRace.boot], by simp [DeployRace.boot], by simp [DeployRace.boot], ?_⟩
    exact .booted rfl ⟨by simp [DeployRace.boot], by simp [DeployRace.boot]⟩ (by simp [DeployRace.boot])
  | some m =>
    obtain ⟨disk, hsave, hholds⟩ := holds_save sha256 hname {} m.version m.bytecode
    refine ⟨by simp [DeployRace.boot], by simp [DeployRace.boot], by simp [DeployRace.boot], ?_⟩
    refine .booted rfl ⟨?_, ?_⟩ (by simp [DeployRace.boot])
    · simp [DeployRace.boot, hsave, hholds.index]
    · simp [DeployRace.boot, hsave, hholds.dir]

theorem Inv.neverBack (h : Inv sha256 name n s) : s.NeverBack :=
  h.sorted.imp_of_mem fun ha hb hle => (compareVersions_nonneg (h.dotted _ hb) (h.dotted _ ha)).2 hle

theorem Inv.agrees (h : Inv sha256 name n s) (hfin : s.Finished) : s.Agrees sha256 name := by
  cases h.served with
  | booted _ hagrees _ => exact hagrees
  | deployed i d m _ hreq hmem hver hbytes _ hsaved =>
    obtain ⟨success, hret⟩ := hfin d (List.mem_of_getElem? hreq)
    have hholds : Holds sha256 name s.disk d.version d.bytecode := hsaved.resolve_left (by simp [hret])
    refine ⟨?_, ?_⟩
    · rw [hmem, hholds.index, Option.map_some, hver, hbytes]
    · rw [hmem, hholds.dir, Option.map_some, hver, hbytes]

end

/-- **The version that is served never goes back, and in the end it is the one that is stored**, in every run in which a
module is published before any newer one and saved before the one that is served. -/
theorem deploys_agree (sha256 : Bytes → Bytes) (name : Bytes) (hname : validModuleName name = true) (n : Nat)
    (m : Option WasmModule) (ls : List Label) (s : DeployRace)
    (hin : Allowed (step sha256 name) (Within n) (boot sha256 name m) ls)
    (hok : Allowed (step sha256 name) Timely (boot sha256 name m) ls)
    (hrun : run (step sha256 name) (boot sha256 name m) ls = some s) :
    s.NeverBack ∧ (s.Finished → s.Agrees sha256 name) := by
  have h : Inv sha256 name n s := run_invariant (Inv sha256 name n)
    (fun _ _ _ h hl hs => h.step hname hl.1 hl.2 hs) (.boot hname n m) (hin.and hok) hrun
  exact ⟨h.neverBack, h.agrees⟩

/-! ## Two deploys of a name -/

/-- Neither finds a module when it passes the gate; the first is published first. -/
def bothPublished (first second : Bytes) : List Label :=
  [.arrive Modules.noReducer first {}, .arrive Modules.noReducer second {}, .gate 0 {}, .gate 1 {}, .hooks 0 true, .hooks 1 true,
    .publish 0, .publish 1]

def savedInOrder : List Label := [.save 0 .ok, .save 1 .ok]

def savedCrosswise : List Label := [.save 1 .ok, .save 0 .ok]

theorem dotted_both : Dotted 2 (str "1.0") ∧ Dotted 2 (str "2.0") := by decide

theorem finished_of_map {s : DeployRace} (h : s.requests.map Deploying.phase = [.returned true, .returned true]) : s.Finished := by
  intro d hd
  have hmem := List.mem_map_of_mem (f := Deploying.phase) hd
  rw [h] at hmem
  exact ⟨true, by simpa using hmem⟩

theorem deploys_agree_inOrder : ∃ s, run (step Modules.noReducerSha (str "m")) (boot Modules.noReducerSha (str "m") none)
      (bothPublished (str "1.0") (str "2.0") ++ savedInOrder) = some s ∧
    s.published = [str "1.0", str "2.0"] ∧ s.Finished ∧ s.NeverBack ∧ s.Agrees Modules.noReducerSha (str "m") := by
  have hfacts : (run (step Modules.noReducerSha (str "m")) (boot Modules.noReducerSha (str "m") none)
      (bothPublished (str "1.0") (str "2.0") ++ savedInOrder)).map (fun s => decide (s.published = [str "1.0", str "2.0"] ∧
        s.requests.map Deploying.phase = [.returned true, .returned true])) = some true := by
    decide
  obtain ⟨s, hrun, hs⟩ := Option.map_eq_some_iff.1 hfacts
  obtain ⟨hpub, hphases⟩ := of_decide_eq_true hs
  have hin : Allowed (step Modules.noReducerSha (str "m")) (Within 2) (boot Modules.noReducerSha (str "m") none)
      (bothPublished (str "1.0") (str "2.0") ++ savedInOrder) :=
    ⟨dotted_both.1, dotted_both.2, trivial, trivial, trivial, trivial, trivial, trivial, rfl, rfl, trivial⟩
  have hok : Allowed (step Modules.noReducerSha (str "m")) Timely (boot Modules.noReducerSha (str "m") none)
      (bothPublished (str "1.0") (str "2.0") ++ savedInOrder) := by
    refine ⟨trivial, trivial, trivial, trivial, trivial, trivial, ?_, ?_, ?_, ?_, trivial⟩
    · intro version hmem
      cases hmem
    · intro version hmem
      rw [List.mem_singleton.1 hmem]
      exact (compareVersions_nonneg dotted_both.2 dotted_both.1).2 (by decide)
    · intro j hj
      cases hj
      exact Or.inr (by decide)
    · intro j hj
      cases hj
      exact Or.inl rfl
  obtain ⟨hback, hagrees⟩ := deploys_agree Modules.noReducerSha (str "m") (by decide) 2 none _ s hin hok hrun
  have hfin := finished_of_map hphases
  exact ⟨s, hrun, hpub, hfin, hback, hagrees hfin⟩

/-- The newer version is published first and saved last. -/
theorem deploys_crossed : ∃ s, run (step Modules.noReducerSha (str "m")) (boot Modules.noReducerSha (str "m") none)
      (bothPublished (str "2.0") (str "1.0") ++ savedCrosswise) = some s ∧
    Allowed (step Modules.noReducerSha (str "m")) (Within 2) (boot Modules.noReducerSha (str "m") none)
      (bothPublished (str "2.0") (str "1.0") ++ savedCrosswise) ∧
    s.Finished ∧ s.published = [str "2.0", str "1.0"] ∧ s.memory[str "m"]?.map WasmModule.version = some (str "1.0") ∧
    s.disk.index[str "m"]?.map StoredModuleInfo.version = some (str "2.0") ∧
    ¬ s.NeverBack ∧ ¬ s.Agrees Modules.noReducerSha (str "m") := by
  have hfacts : (run (step Modules.noReducerSha (str "m")) (boot Modules.noReducerSha (str "m") none)
      (bothPublished (str "2.0") (str "1.0") ++ savedCrosswise)).map (fun s => decide (s.published = [str "2.0", str "1.0"] ∧
        s.requests.map Deploying.phase = [.returned true, .returned true] ∧
        s.memory[str "m"]?.map WasmModule.version = some (str "1.0") ∧
        s.disk.index[str "m"]?.map StoredModuleInfo.version = some (str "2.0"))) = some true := by
    decide
  obtain ⟨s, hrun, hs⟩ := Option.map_eq_some_iff.1 hfacts
  obtain ⟨hpub, hphases, hmem, hdisk⟩ := of_decide_eq_true hs
  refine ⟨s, hrun, ⟨dotted_both.2, dotted_both.1, trivial, trivial, trivial, trivial, trivial, trivial, rfl, rfl, trivial⟩,
    finished_of_map hphases, hpub, hmem, hdisk, fun h => ?_, fun h => ?_⟩
  · rw [NeverBack, hpub] at h
    have hlate := (List.pairwise_cons.1 h).1 (str "1.0") (by simp)
    rw [compareVersions_nonneg dotted_both.1 dotted_both.2] at hlate
    exact absurd hlate (by decide)
  · have hversion := congrArg (Option.map StoredModuleInfo.version) h.1
    rw [hdisk, Option.map_map] at hversion
    have hserved : s.memory[str "m"]?.map (StoredModuleInfo.version ∘ fun m => ⟨m.version, Modules.noReducerSha m.bytecode⟩) =
        s.memory[str "m"]?.map WasmModule.version := rfl
    rw [hserved, hmem] at hversion
    exact absurd hversion (by decide)

/-! ## One deploy by itself -/

section
variable {env : Env} {maxLag : Nat} {sha256 : Bytes → Bytes} {m : Modules} {s : DeployRace} {i : Nat} {d : Deploying}

theorem getElem?_put_self (hd : s.requests[i]? = some d) (p : DeployPhase) :
    (s.put i p).requests[i]? = some { d with phase := p } := by
  rw [getElem?_put, if_pos rfl, hd]
  rfl

theorem phase?_put (hd : s.requests[i]? = some d) (p : DeployPhase) : (s.put i p).phase? i = some p := by
  rw [phase?, getElem?_put_self hd]
  rfl

theorem step_gate (sha256 : Bytes → Bytes) (name : Bytes) (ld : Loading) (hd : s.requests[i]? = some d)
    (hphase : d.phase = .arrived) : step sha256 name s (.gate i ld) =
      some (s.put i (match newModule d.bytecode d.version d.caps ld with
        | none => .returned false
        | some module => if passesGate s.memory name module then .gated module s.published.length else .returned false)) := by
  rw [step, hd, Option.bind_some, hphase]

theorem step_hooks (sha256 : Bytes → Bytes) (name : Bytes) (ok : Bool) {module : WasmModule} {seen : Nat}
    (hd : s.requests[i]? = some d) (hphase : d.phase = .gated module seen) :
    step sha256 name s (.hooks i ok) = some (s.put i (if ok then .ready module seen else .returned false)) := by
  rw [step, hd, Option.bind_some, hphase]

/-- The request has ended as a deploy by itself does. -/
structure EndsAs (s : DeployRace) (i : Nat) (out : Response × Modules) : Prop where
  memory : s.memory = out.2.memory
  disk : s.disk = out.2.disk
  phase : s.phase? i = some (.returned out.1.success)

theorem endsAs_refused {r : DeployRequest} {io : SaveIo} {l : Loaded} {store : Store}
    (h : (∃ e, l = .failed e store) ∨ l = .threw store) (hmem : s.memory = m.memory) (hdisk : s.disk = m.disk)
    (hphase : s.phase? i = some (.returned false)) : EndsAs s i (m.settle sha256 r io l) := by
  rcases h with ⟨e, rfl⟩ | rfl <;> exact ⟨hmem, hdisk, hphase⟩

/-- The hooks are through: the module is published and saved. -/
theorem run_ready (sha256 : Bytes → Bytes) (r : DeployRequest) (io : SaveIo) {module : WasmModule} {seen : Nat}
    (hd : s.requests[i]? = some d) (hphase : d.phase = .ready module seen) (hver : d.version = r.version)
    (hbytes : d.bytecode = r.bytecode) (hmem : s.memory = m.memory) (hdisk : s.disk = m.disk) (store : Store) :
    ∃ s', run (step sha256 r.name) s [.publish i, .save i io] = some s' ∧
      EndsAs s' i (m.settle sha256 r io (.loaded (m.memory.insert r.name module) store)) := by
  let s₁ : DeployRace := { s.put i .published with
    memory := s.memory.insert r.name module, published := s.published ++ [module.version], serving := some i }
  have hpub : step sha256 r.name s (.publish i) = some s₁ := by
    rw [step, hd, Option.bind_some, hphase]
  have hd₁ : s₁.requests[i]? = some { d with phase := .published } := getElem?_put_self hd .published
  have hsv : step sha256 r.name s₁ (.save i io) = match m.disk.save sha256 r.name r.version r.bytecode io with
      | (.ok _, disk) => some { s₁.put i (.returned true) with disk := disk }
      | (.error _, disk) => some { s₁.put i (.returned false) with disk := disk, memory := (unloadModule s₁.memory r.name).2 } := by
    rw [step, hd₁, ← hver, ← hbytes, ← hdisk]
    rfl
  have hmem₁ : s₁.memory = m.memory.insert r.name module := by rw [← hmem]
  cases hsave : m.disk.save sha256 r.name r.version r.bytecode io with
  | mk res disk =>
    rw [hsave] at hsv
    cases res with
    | ok u =>
      refine ⟨{ s₁.put i (.returned true) with disk := disk }, by rw [run_cons hpub, run_cons hsv, run_nil], ?_⟩
      simp only [Modules.settle, hsave]
      exact ⟨hmem₁, rfl, phase?_put hd₁ (.returned true)⟩
    | error e =>
      refine ⟨{ s₁.put i (.returned false) with disk := disk, memory := (unloadModule s₁.memory r.name).2 },
        by rw [run_cons hpub, run_cons hsv, run_nil], ?_⟩
      simp only [Modules.settle, hsave]
      refine ⟨?_, rfl, phase?_put hd₁ (.returned false)⟩
      simp only
      rw [hmem₁]

/-- From the gate on: the hooks fail, or the module is published and saved. -/
theorem run_gated (env : Env) (maxLag : Nat) (sha256 : Bytes → Bytes) (r : DeployRequest) (ld : Loading) (io : SaveIo)
    {module : WasmModule} {seen : Nat} (hd : s.requests[i]? = some d) (hphase : d.phase = .gated module seen)
    (hver : d.version = r.version) (hbytes : d.bytecode = r.bytecode) (hcaps : module.capabilities = r.capabilities)
    (hup : ld.shutdown = false) (hmem : s.memory = m.memory) (hdisk : s.disk = m.disk) :
    ∃ calls s', run (step sha256 r.name) s calls = some s' ∧
      EndsAs s' i (m.settle sha256 r io (runHooks env maxLag m.memory r.name module ld m.store)) := by
  have hfails : ∀ {store : Store}, ((∃ e, runHooks env maxLag m.memory r.name module ld m.store = .failed e store) ∨
      runHooks env maxLag m.memory r.name module ld m.store = .threw store) →
      ∃ calls s', run (step sha256 r.name) s calls = some s' ∧
        EndsAs s' i (m.settle sha256 r io (runHooks env maxLag m.memory r.name module ld m.store)) := by
    intro store hl
    refine ⟨[.hooks i false], s.put i (.returned false), ?_, endsAs_refused hl hmem hdisk (phase?_put hd (.returned false))⟩
    rw [run_cons (step_hooks sha256 r.name false hd hphase), run_nil]
    rfl
  have hloaded : ∀ {store : Store}, runHooks env maxLag m.memory r.name module ld m.store =
      .loaded (m.memory.insert r.name module) store →
      ∃ calls s', run (step sha256 r.name) s calls = some s' ∧
        EndsAs s' i (m.settle sha256 r io (runHooks env maxLag m.memory r.name module ld m.store)) := by
    intro store hl
    obtain ⟨s', hrun, hends⟩ := run_ready sha256 r io (getElem?_put_self hd (.ready module seen)) rfl hver hbytes hmem hdisk store
    refine ⟨[.hooks i true, .publish i, .save i io], s', ?_, by rw [hl]; exact hends⟩
    rw [run_cons (step_hooks sha256 r.name true hd hphase)]
    exact hrun
  rcases Modules.runHooks_cases env maxLag m hcaps hup with ⟨-, hl⟩ | ⟨-, -, hl⟩ | ⟨-, -, ⟨-, hl⟩ | ⟨-, hl⟩⟩
  · exact hfails hl
  · exact hloaded hl
  · exact hfails hl
  · exact hloaded hl

/-- **A request that nobody comes between does what `deployModule` does.** -/
theorem deployModule_alone (env : Env) (maxLag : Nat) (sha256 : Bytes → Bytes) (m : Modules) (s : DeployRace) (r : DeployRequest)
    (ld : Loading) (io : SaveIo) (hmem : s.memory = m.memory) (hdisk : s.disk = m.disk) :
    ∃ calls s', run (step sha256 r.name) s (.arrive r.bytecode r.version r.capabilities :: calls) = some s' ∧
      EndsAs s' s.requests.length (m.deployModule env maxLag sha256 r ld io) := by
  let p : DeployPhase :=
    if r.name = [] ∨ r.bytecode = [] ∨ maxModuleBytes < r.bytecode.length then .returned false else .arrived
  let d : Deploying := ⟨r.bytecode, r.version, r.capabilities, p⟩
  let i := s.requests.length
  let s₀ : DeployRace := { s with requests := s.requests ++ [d] }
  have harrive : step sha256 r.name s (.arrive r.bytecode r.version r.capabilities) = some s₀ := rfl
  have hd : s₀.requests[i]? = some d := by simp [s₀, i]
  have hpass : ∀ module, passesGate s₀.memory r.name module = passesGate m.memory r.name module := fun _ => by
    rw [show s₀.memory = m.memory from hmem]
  have hrefused : m.gated r ld = none → ∀ {s'}, s'.memory = m.memory → s'.disk = m.disk → s'.phase? i = some (.returned false) →
      EndsAs s' i (m.deployModule env maxLag sha256 r ld io) := by
    intro hg s' hmem' hdisk' hphase
    obtain ⟨e, he⟩ : ∃ e, m.deployModule env maxLag sha256 r ld io = ({ success := false, error := e }, m) :=
      Modules.deployModule_refused hg
    rw [he]
    exact ⟨hmem', hdisk', hphase⟩
  by_cases hown : r.name = [] ∨ r.bytecode = [] ∨ maxModuleBytes < r.bytecode.length
  · refine ⟨[], s₀, by rw [run_cons harrive, run_nil], hrefused (if_pos hown) hmem hdisk ?_⟩
    rw [phase?, hd, Option.map_some]
    exact congrArg some (if_pos hown)
  · have hgate := step_gate sha256 r.name ld hd (if_neg hown)
    cases hg : m.gated r ld with
    | none =>
      refine ⟨[.gate i ld], s₀.put i (.returned false), ?_, hrefused hg hmem hdisk (phase?_put hd _)⟩
      rw [Modules.gated, if_neg hown, Option.filter_eq_none_iff] at hg
      rw [run_cons harrive, run_cons hgate, run_nil]
      refine congrArg (fun p => some (s₀.put i p)) ?_
      cases hnew : newModule r.bytecode r.version r.capabilities ld with
      | none => rfl
      | some module => exact if_neg (by rw [hpass]; exact hg module hnew)
    | some module =>
      obtain ⟨hcaps, hup, heq⟩ : _ ∧ _ ∧ m.deployModule env maxLag sha256 r ld io = _ := Modules.deployModule_gated hg
      rw [Modules.gated, if_neg hown] at hg
      obtain ⟨hnew, hpasses⟩ := Option.filter_eq_some_iff.1 hg
      have hphase : (match newModule d.bytecode d.version d.caps ld with
          | none => DeployPhase.returned false
          | some module => if passesGate s₀.memory r.name module then .gated module s₀.published.length else .returned false) =
          .gated module s₀.published.length := by
        rw [show newModule d.bytecode d.version d.caps ld = some module from hnew]
        exact if_pos (by rw [hpass]; exact hpasses)
      rw [hphase] at hgate
      obtain ⟨calls, s', hrun, hends⟩ := run_gated env maxLag sha256 r ld io
        (getElem?_put_self hd (.gated module s₀.published.length)) rfl rfl rfl hcaps hup hmem hdisk
      refine ⟨.gate i ld :: calls, s', ?_, by rw [heq]; exact hends⟩
      rw [run_cons harrive, run_cons hgate]
      exact hrun

end

end DeployRace

end Wasm

end OriginDB
