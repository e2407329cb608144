import OriginDB.Wasm.Deploy
/-!
# The files behind the module store (`module_store.cpp:52-168`)

`Save` writes the bytecode to `module.wasm.tmp`, renames it to `module.wasm`, and then writes `manifest.json` over the
old one. A crash may come between any two of its calls to the file system.

| here | there |
| --- | --- |
| `save name …`          | `Save` is entered, `mutex_` taken (`:108`) |
| `directory ok`         | `create_directories` (`:118`) |
| `opened ok`            | the constructor of either `ofstream`: the file is there and empty (`:128`, `:158`) |
| `wrote n`              | `n` more bytes have reached the file |
| `notWritten`           | the stream is bad after the write (`:130`, `:159`) |
| `closed`               | the destructor of the stream; what is still in its buffer may be lost, and nobody looks |
| `renamed ok`           | `rename` (`:135`) |
| `crash`                | the process dies; `Initialize` (`:52`) at the next start |
| `remove name kept`     | `Remove` (`:170`) |

`before` is history: the disk when `Save` was entered. A manifest is printed by `dump(2)`.
-/
namespace OriginDB

open JsonDoc ByteCodec Machine

namespace Wasm

/-- The files of a module's directory. -/
structure ModuleFiles where
  tmp : Option Bytes := none
  wasm : Option Bytes := none
  manifest : Option Bytes := none
deriving DecidableEq

/-- `StoredModuleInfo` with the size and the directory of `wasm_path`. -/
structure StoredFile extends StoredModuleInfo where
  sizeBytes : Nat
  dir : Bytes
deriving DecidableEq

inductive SavePhase where
  | entered
  | directory
  /-- The temporary file is open and holds the first `n` bytes. -/
  | writing (n : Nat)
  | written (n : Nat)
  | renamed
  /-- The manifest is open and holds the first `n` bytes. -/
  | certifying (n : Nat)
  | returned (ok : Bool)
deriving DecidableEq

/-- A `Save`. `placed` is what it has renamed to `module.wasm`, `certified` what it has made of the manifest. -/
structure Saving where
  name : Bytes
  version : Bytes
  bytecode : Bytes
  text : Bytes
  before : StrMap ModuleFiles
  phase : SavePhase
  placed : Option Bytes := none
  certified : Option Bytes := none

structure StoreFiles where
  disk : StrMap ModuleFiles := ∅
  index : StrMap StoredFile := ∅
  saving : Option Saving := none

/-- `manifest` (module_store.cpp:150). -/
def manifestJson (name version sha256 : Bytes) (deployedAtMs sizeBytes : Nat) : Json :=
  .object [(str "deployed_at_ms", .int deployedAtMs), (str "name", .string name), (str "sha256", .string sha256),
    (str "size_bytes", .int sizeBytes), (str "version", .string version)]

namespace StoreFiles

section
variable (J : JsonLib) (sha256 : Bytes → Bytes)

/-- `Initialize` on one directory (module_store.cpp:63-101); the outer `none` is an exception. -/
def readFiles (dir : Bytes) (files : ModuleFiles) : Option (Option (Bytes × StoredFile)) :=
  match files.manifest.bind J.parse, files.wasm with
  | some manifest, some bytes =>
    if (manifest.contains (str "name") && manifest.contains (str "sha256")) = false then some none
    else do
      let expected ← (← manifest.member (str "sha256")).asString
      if sha256 bytes ≠ expected then return none
      else
        let name ← (← manifest.member (str "name")).asString
        let version ← manifest.valueOr (str "version") []
        return some (name, { version := version, sha256 := expected, sizeBytes := bytes.length, dir := dir })
  | _, _ => some none

/-- `Initialize`. -/
def storeInitialize (disk : StrMap ModuleFiles) : Option (StrMap StoredFile) :=
  (disk.toList.mapM fun p => readFiles J sha256 p.1 p.2).map fun read => OrdMap.insertAll ∅ (read.filterMap id)

/-- The bytes and the version `List` and `LoadBytecode` (module_store.cpp:196) give after it. -/
def restored (disk : StrMap ModuleFiles) (name : Bytes) : Option (Bytes × Bytes) := do
  let index ← storeInitialize J sha256 disk
  let info ← index[name]?
  let bytes ← (← disk[info.dir]?).wasm
  return (bytes, info.version)

inductive Call where
  | directory (ok : Bool)
  | opened (ok : Bool)
  | wrote (n : Nat)
  | notWritten
  | closed
  | renamed (ok : Bool)
deriving DecidableEq

/-- The files of the module, changed. -/
def onFiles (disk : StrMap ModuleFiles) (name : Bytes) (f : ModuleFiles → ModuleFiles) : StrMap ModuleFiles :=
  disk.insert name (f (disk[name]?.getD {}))

/-- The next call of a `Save`. -/
def call (sv : Saving) (disk : StrMap ModuleFiles) : Call → Option (Saving × StrMap ModuleFiles)
  | .directory ok =>
    match sv.phase, ok with
    | .entered, true => some ({ sv with phase := .directory }, onFiles disk sv.name id)
    | .entered, false => some ({ sv with phase := .returned false }, disk)
    | _, _ => none
  | .opened ok =>
    match sv.phase, ok with
    | .directory, true => some ({ sv with phase := .writing 0 }, onFiles disk sv.name fun f => { f with tmp := some [] })
    | .directory, false => some ({ sv with phase := .returned false }, disk)
    | .renamed, true =>
      some ({ sv with phase := .certifying 0, certified := some [] }, onFiles disk sv.name fun f => { f with manifest := some [] })
    | .renamed, false => some ({ sv with phase := .returned false }, disk)
    | _, _ => none
  | .wrote n =>
    match sv.phase with
    | .writing m =>
      if m + n ≤ sv.bytecode.length then
        some ({ sv with phase := .writing (m + n) }, onFiles disk sv.name fun f => { f with tmp := some (sv.bytecode.take (m + n)) })
      else none
    | .certifying m =>
      if m + n ≤ sv.text.length then
        some ({ sv with phase := .certifying (m + n), certified := some (sv.text.take (m + n)) },
          onFiles disk sv.name fun f => { f with manifest := some (sv.text.take (m + n)) })
      else none
    | _ => none
  | .notWritten =>
    match sv.phase with
    | .writing _ => some ({ sv with phase := .returned false }, disk)
    | .certifying m => if m < sv.text.length then some ({ sv with phase := .returned false }, disk) else none
    | _ => none
  | .closed =>
    match sv.phase with
    | .writing m => some ({ sv with phase := .written m }, disk)
    | .certifying _ => some ({ sv with phase := .returned true }, disk)
    | _ => none
  | .renamed ok =>
    match sv.phase, ok with
    | .written m, true => some ({ sv with phase := .renamed, placed := some (sv.bytecode.take m) },
        onFiles disk sv.name fun f => { f with tmp := none, wasm := f.tmp })
    | .written _, false => some ({ sv with phase := .returned false }, disk)
    | _, _ => none

/-- `info` (module_store.cpp:140-148). -/
def savedInfo (name bytecode version : Bytes) : StoredFile :=
  { version := version, sha256 := sha256 bytecode, sizeBytes := bytecode.length, dir := name }

/-- `index_[name]` once all is written (module_store.cpp:166). -/
def indexed (index : StrMap StoredFile) (sv : Saving) : StrMap StoredFile :=
  if sv.phase = .returned true then index.insert sv.name (savedInfo sha256 sv.name sv.bytecode sv.version) else index

inductive Label where
  | save (name version bytecode : Bytes) (now : Nat)
  | call (c : Call)
  | crash
  | remove (name : Bytes) (kept : Bool × Bool × Bool)
deriving DecidableEq

/-- `mutex_` is held by a `Save`. -/
def busy (s : StoreFiles) : Bool := s.saving.any fun sv => match sv.phase with
  | .returned _ => false
  | _ => true

/-- What is left of a directory. -/
def keep (kept : Bool × Bool × Bool) (f : ModuleFiles) : ModuleFiles :=
  { tmp := if kept.1 then f.tmp else none, wasm := if kept.2.1 then f.wasm else none,
    manifest := if kept.2.2 then f.manifest else none }

def step (s : StoreFiles) : Label → Option StoreFiles
  | .save name version bytecode now =>
    let sv : Saving :=
      { name := name, version := version, bytecode := bytecode, text := [], before := s.disk, phase := .returned false }
    if s.busy then none
    else if validModuleName name = false then some { s with saving := some sv }
    else (J.dump (manifestJson name version (sha256 bytecode) now bytecode.length)).map fun text =>
      { s with saving := some { sv with text := text, phase := .entered } }
  | .call c => s.saving.bind fun sv => (call sv s.disk c).map fun p =>
      { disk := p.2, saving := some p.1, index := indexed sha256 s.index p.1 }
  | .crash => some { disk := s.disk, index := (storeInitialize J sha256 s.disk).getD ∅, saving := none }
  | .remove name kept =>
    if s.busy then none
    else if validModuleName name = false then some { s with saving := none }
    else
      let left := match s.disk[name]? with
        | none => s.disk
        | some f => if kept = (false, false, false) then s.disk.erase name else s.disk.insert name (keep kept f)
      some { disk := left, index := s.index.erase name, saving := none }

end

/-! ## What a restart finds -/

/-- What a manifest says. -/
def manifestOf (J : JsonLib) (files : ModuleFiles) : Option Manifest := do
  let manifest ← J.parse (← files.manifest)
  let name ← (← manifest.constMember (str "name")).asString
  let sha256 ← (← manifest.constMember (str "sha256")).asString
  return { name := name, version := ← manifest.valueOr (str "version") [], sha256 := sha256 }

/-- The module of a directory, if it is the one the manifest is for. -/
def contents (J : JsonLib) (sha256 : Bytes → Bytes) (files : ModuleFiles) : Option (Bytes × Bytes) := do
  let manifest ← manifestOf J files
  let bytes ← files.wasm
  if sha256 bytes = manifest.sha256 then some (bytes, manifest.version) else none

/-- A restart finds the old module or the new one, and the old one where `Save` has answered no. -/
def AllOrNothing (J : JsonLib) (sha256 : Bytes → Bytes) (disk : StrMap ModuleFiles) (sv : Saving) : Prop :=
  (restored J sha256 disk sv.name = restored J sha256 sv.before sv.name ∨
    restored J sha256 disk sv.name = some (sv.bytecode, sv.version)) ∧
  (sv.phase = .returned false → restored J sha256 disk sv.name = restored J sha256 sv.before sv.name)

/-- No other bytes have the digest of the old bytecode or of the new one; a write that is cut off leaves a beginning of
the new one. -/
def CollisionFree (sha256 : Bytes → Bytes) (sv : Saving) (old : Option (Bytes × Bytes)) : Prop :=
  ∀ w, w <+: sv.bytecode → (sha256 w = sha256 sv.bytecode → w = sv.bytecode) ∧ ∀ p ∈ old, sha256 w = sha256 p.1 → w = p.1

/-- A text that breaks off before its last brace is not a document. -/
def Unfinished (J : JsonLib) : Prop :=
  ∀ m text cut, J.dump (.object m) = some text → cut <+: text → cut ≠ text → J.parse cut = none

/-- The condition. Nothing has been renamed yet; or the old manifest is still there, and it is for the bytes that are
now in place just if they are those of the module it was for (or what it says is what the new one would say); or a
new manifest has been begun, and both files are complete or nothing was stored. -/
def Harmless (J : JsonLib) (sha256 : Bytes → Bytes) (sv : Saving) : Prop :=
  match sv.placed, sv.certified with
  | none, _ => True
  | some wasm, none =>
    match restored J sha256 sv.before sv.name with
    | some old => wasm = old.1
    | none => ∀ manifest ∈ manifestOf J (sv.before[sv.name]?.getD {}), sha256 wasm = manifest.sha256 →
        sv.phase ≠ .returned false ∧ wasm = sv.bytecode ∧ manifest.version = sv.version
  | some wasm, some text =>
    restored J sha256 sv.before sv.name = none ∨ (wasm = sv.bytecode ∧ text = sv.text)

/-! ## The invariant -/

/-- The text, or a beginning of it, of a manifest printed for the module. -/
def Printed (J : JsonLib) (name text : Bytes) : Prop :=
  ∃ version sha256 now size full, J.dump (manifestJson name version sha256 now size) = some full ∧ text <+: full

/-- Every manifest was printed for the directory it is in. -/
def Named (J : JsonLib) (disk : StrMap ModuleFiles) : Prop :=
  ∀ name f text, disk[name]? = some f → f.manifest = some text → Printed J name text

/-- How far a `Save` is, and what it has left. -/
def At (sv : Saving) (tmp : Option Bytes) : Prop :=
  match sv.phase, sv.placed, sv.certified with
  | .entered, none, none => True
  | .directory, none, none => True
  | .writing n, none, none => tmp = some (sv.bytecode.take n)
  | .written n, none, none => tmp = some (sv.bytecode.take n)
  | .renamed, some w, none => w <+: sv.bytecode
  | .certifying n, some w, some t => w <+: sv.bytecode ∧ t = sv.text.take n
  | .returned false, none, none => True
  | .returned false, some w, none => w <+: sv.bytecode
  | .returned false, some w, some t => w <+: sv.bytecode ∧ t <+: sv.text ∧ t ≠ sv.text
  | .returned true, some w, some t => w <+: sv.bytecode ∧ t <+: sv.text
  | _, _, _ => False

structure Started (J : JsonLib) (sha256 : Bytes → Bytes) (sv : Saving) (disk : StrMap ModuleFiles) : Prop where
  named : Named J sv.before
  others : ∀ name, name ≠ sv.name → disk[name]? = sv.before[name]?
  wasm : (disk[sv.name]?.getD {}).wasm = sv.placed.or (sv.before[sv.name]?.getD {}).wasm
  manifest : (disk[sv.name]?.getD {}).manifest = sv.certified.or (sv.before[sv.name]?.getD {}).manifest
  text : sv.placed = none ∧ sv.phase = .returned false ∨
    ∃ now, J.dump (manifestJson sv.name sv.version (sha256 sv.bytecode) now sv.bytecode.length) = some sv.text
  point : At sv (disk[sv.name]?.getD {}).tmp
  grows : disk[sv.name]? = sv.before[sv.name]? ∨ disk[sv.name]?.isSome = true

structure Inv (J : JsonLib) (sha256 : Bytes → Bytes) (s : StoreFiles) : Prop where
  named : Named J s.disk
  started : ∀ sv ∈ s.saving, Started J sha256 sv s.disk

section
variable {J : JsonLib} {sha256 : Bytes → Bytes} {disk : StrMap ModuleFiles} {s s' : StoreFiles} {sv sv' : Saving}

theorem manifestJson_reparsed (name version sha256 : Bytes) (now size : Nat) :
    (manifestJson name version sha256 now size).reparsed = manifestJson name version sha256 now size := by
  simp [manifestJson, Json.reparsed, Json.reparsedObject]

/-- A printed manifest is read as it was written, or broken off. -/
theorem Printed.parse (hcut : Unfinished J) {name text : Bytes} (h : Printed J name text) :
    J.parse text = none ∨ ∃ version sha256 now size, J.parse text = some (manifestJson name version sha256 now size) := by
  obtain ⟨version, sha256, now, size, full, hfull, hle⟩ := h
  by_cases he : text = full
  · subst he
    have hp := J.parse_dump _ _ hfull
    rw [manifestJson_reparsed] at hp
    exact Or.inr ⟨version, sha256, now, size, hp⟩
  · exact Or.inl (hcut _ _ _ hfull hle he)

theorem manifestOf_of_parse {f : ModuleFiles} {text name version sha : Bytes} {now size : Nat} (hf : f.manifest = some text)
    (hp : J.parse text = some (manifestJson name version sha now size)) :
    manifestOf J f = some { name := name, version := version, sha256 := sha } := by
  simp only [manifestOf, hf, hp, Option.bind_eq_bind, Option.bind_some]
  rfl

/-- `Initialize` takes from a directory what its manifest is for. -/
theorem readFiles_eq (hcut : Unfinished J) {name : Bytes} {f : ModuleFiles}
    (h : ∀ text, f.manifest = some text → Printed J name text) :
    readFiles J sha256 name f = some ((contents J sha256 f).map fun p =>
      (name, savedInfo sha256 name p.1 p.2)) := by
  cases hm : f.manifest with
  | none => simp [readFiles, contents, manifestOf, hm]
  | some text =>
    rcases (h text hm).parse hcut with hp | ⟨version, sha, now, size, hp⟩
    · simp [readFiles, contents, manifestOf, hm, hp]
    · rw [contents, manifestOf_of_parse hm hp]
      simp only [readFiles, hm, Option.bind_some, hp]
      cases f.wasm with
      | none => rfl
      | some bytes =>
        have hcontains : ((manifestJson name version sha now size).contains (str "name") &&
          (manifestJson name version sha now size).contains (str "sha256")) = true := rfl
        have hsha : (manifestJson name version sha now size).member (str "sha256") = some (.string sha) := rfl
        have hname : (manifestJson name version sha now size).member (str "name") = some (.string name) := rfl
        have hversion : (manifestJson name version sha now size).valueOr (str "version") [] = some version := rfl
        simp only [hcontains, hsha, hname, hversion, Json.asString, Option.bind_eq_bind, Option.bind_some, ne_eq]
        by_cases he : sha256 bytes = sha <;> simp [he, savedInfo]

/-- On a disk whose manifests are where they belong, `Initialize` does not throw, and indexes each module under its own
directory. -/
theorem storeInitialize_eq (hcut : Unfinished J) (h : Named J disk) : ∃ index, storeInitialize J sha256 disk = some index ∧
    ∀ name : Bytes, index[name]? =
      (contents J sha256 (disk[name]?.getD {})).map fun p => savedInfo sha256 name p.1 p.2 := by
  let entry : Bytes → ModuleFiles → Option StoredFile := fun name f =>
    (contents J sha256 f).map fun p => savedInfo sha256 name p.1 p.2
  have hread : disk.toList.mapM (fun p => readFiles J sha256 p.1 p.2) =
      some (disk.toList.map fun p => (entry p.1 p.2).map fun info => (p.1, info)) := by
    refine Lists.mapM_eq_some_map fun p hp => ?_
    have hget := Std.ExtTreeMap.mem_toList_iff_getElem?_eq_some.1 hp
    rw [readFiles_eq hcut fun text ht => h p.1 p.2 text hget ht, Option.map_map]
    rfl
  refine ⟨_, by rw [storeInitialize, hread, Option.map_some], fun name => ?_⟩
  have hget := OrdMap.getElem?_insertAll_filterMap (List.Perm.refl disk.toList) entry name
  rw [List.filterMap_map]
  refine hget.trans ?_
  cases disk[name]? with
  | none => simp [contents, manifestOf]
  | some f => rfl

/-- Each module is restored from its own directory. -/
theorem restored_eq (hcut : Unfinished J) (h : Named J disk) (name : Bytes) :
    restored J sha256 disk name = contents J sha256 (disk[name]?.getD {}) := by
  obtain ⟨index, hindex, hget⟩ : ∃ index, storeInitialize J sha256 disk = some index ∧ _ := storeInitialize_eq hcut h
  simp only [restored, hindex, hget, Option.bind_eq_bind, Option.bind_some, Option.bind_map]
  cases hd : disk[name]? with
  | none => simp [contents, manifestOf]
  | some f =>
    simp only [contents, Option.getD_some, Function.comp_def]
    cases manifestOf J f with
    | none => rfl
    | some manifest =>
      cases hw : f.wasm with
      | none => rfl
      | some bytes =>
        by_cases he : sha256 bytes = manifest.sha256 <;> simp [he, hd, hw, savedInfo]

/-! ### One call -/

@[simp] theorem onFiles_self (disk : StrMap ModuleFiles) (name : Bytes) (f : ModuleFiles → ModuleFiles) :
    (onFiles disk name f)[name]?.getD {} = f (disk[name]?.getD {}) := by
  rw [onFiles, OrdMap.getElem?_insert, if_pos rfl, Option.getD_some]

theorem onFiles_other (disk : StrMap ModuleFiles) {name n : Bytes} (h : n ≠ name) (f : ModuleFiles → ModuleFiles) :
    (onFiles disk name f)[n]? = disk[n]? := by
  rw [onFiles, OrdMap.getElem?_insert, if_neg (Ne.symm h)]

section
variable {file : Option Bytes}

theorem At.fresh (h : At sv file)
    (hphase : sv.phase = .entered ∨ sv.phase = .directory ∨ (∃ n, sv.phase = .writing n) ∨ ∃ n, sv.phase = .written n) :
    sv.placed = none ∧ sv.certified = none := by
  obtain ⟨_, _, _, _, _, phase, placed, certified⟩ := sv
  rcases hphase with rfl | rfl | ⟨n, rfl⟩ | ⟨n, rfl⟩ <;> cases placed <;> cases certified <;>
    first | exact ⟨rfl, rfl⟩ | exact h.elim

theorem At.tmp (h : At sv file) {n : Nat} (hphase : sv.phase = .writing n ∨ sv.phase = .written n) :
    file = some (sv.bytecode.take n) := by
  obtain ⟨_, _, _, _, _, phase, placed, certified⟩ := sv
  rcases hphase with rfl | rfl <;> cases placed <;> cases certified <;> first | exact h | exact h.elim

theorem At.renamed (h : At sv file) (hphase : sv.phase = .renamed) :
    ∃ w, sv.placed = some w ∧ w <+: sv.bytecode ∧ sv.certified = none := by
  obtain ⟨_, _, _, _, _, phase, placed, certified⟩ := sv
  cases hphase
  cases placed <;> cases certified <;> first | exact ⟨_, rfl, h, rfl⟩ | exact h.elim

theorem At.certifying (h : At sv file) {n : Nat} (hphase : sv.phase = .certifying n) :
    ∃ w, sv.placed = some w ∧ w <+: sv.bytecode ∧ sv.certified = some (sv.text.take n) := by
  obtain ⟨_, _, _, _, _, phase, placed, certified⟩ := sv
  cases hphase
  cases placed <;> cases certified <;> first | exact ⟨_, rfl, h.1, congrArg some h.2⟩ | exact h.elim

/-- What is in place is a beginning of the bytecode. -/
theorem At.placed (h : At sv file) {w : Bytes} (hw : sv.placed = some w) : w <+: sv.bytecode := by
  obtain ⟨_, _, _, _, _, phase, placed, certified⟩ := sv
  cases hw
  cases phase with
  | returned ok => cases ok <;> cases certified <;> first | exact h.elim | exact h.1 | exact h
  | _ => cases certified <;> first | exact h.elim | exact h.1 | exact h

theorem At.unplaced (h : At sv file) (hplaced : sv.placed = none) :
    sv.certified = none ∧ ∀ ok, sv.phase = .returned ok → ok = false := by
  obtain ⟨_, _, _, _, _, phase, placed, certified⟩ := sv
  cases hplaced
  cases phase with
  | returned ok =>
    cases ok with
    | false =>
      cases certified with
      | none => exact ⟨rfl, fun _ hphase => by cases hphase; rfl⟩
      | some t => exact h.elim
    | true => cases certified <;> exact h.elim
  | _ => cases certified <;> first | exact h.elim | exact ⟨rfl, fun _ hphase => by cases hphase⟩

theorem At.finished (h : At sv file) (hret : sv.phase = .returned true) : ∃ t, sv.certified = some t := by
  obtain ⟨_, _, _, _, _, phase, placed, certified⟩ := sv
  cases hret
  cases certified with
  | none => cases placed <;> exact h.elim
  | some t => exact ⟨t, rfl⟩

/-- And the manifest one of its text, after the rename, and not all of it where the answer was no. -/
theorem At.certified (h : At sv file) {t : Bytes} (ht : sv.certified = some t) :
    t <+: sv.text ∧ (sv.phase = .returned false → t ≠ sv.text) ∧ ∃ w, sv.placed = some w := by
  obtain ⟨_, _, _, _, _, phase, placed, certified⟩ := sv
  cases ht
  cases placed with
  | none =>
    cases phase with
    | returned ok => cases ok <;> exact h.elim
    | _ => exact h.elim
  | some w =>
    refine ⟨?_, fun hphase => ?_, w, rfl⟩
    · cases phase with
      | certifying n =>
        have ht : t = List.take n _ := h.2
        rw [ht]
        exact List.take_prefix n _
      | returned ok =>
        cases ok with
        | false => exact h.2.1
        | true => exact h.2
      | _ => exact h.elim
    · have hphase : phase = .returned false := hphase
      subst hphase
      exact h.2.2

end

/-- What is on the disk now was printed for its directory as well. -/
theorem Started.named_now (h : Started J sha256 sv disk) : Named J disk := by
  intro name f text hf ht
  by_cases hn : name = sv.name
  · subst hn
    have hman := h.manifest
    rw [hf, Option.getD_some, ht] at hman
    cases hc : sv.certified with
    | none =>
      rw [hc, Option.none_or] at hman
      cases hb : sv.before[sv.name]? with
      | none =>
        rw [hb] at hman
        cases hman
      | some f₀ =>
        rw [hb] at hman
        exact h.named sv.name f₀ text hb hman.symm
    | some t =>
      rw [hc, Option.some_or] at hman
      cases hman
      obtain ⟨hle, -, w, hw⟩ := h.point.certified hc
      rcases h.text with ⟨hnone, -⟩ | ⟨now, hprinted⟩
      · rw [hw] at hnone
        cases hnone
      · exact ⟨_, _, now, _, sv.text, hprinted, hle⟩
  · rw [h.others name hn] at hf
    exact h.named name f text hf ht

theorem Started.printed (h : Started J sha256 sv disk) (hphase : sv.phase ≠ .returned false) :
    ∃ now, J.dump (manifestJson sv.name sv.version (sha256 sv.bytecode) now sv.bytecode.length) = some sv.text := by
  rcases h.text with ⟨-, hp⟩ | hprinted
  · exact absurd hp hphase
  · exact hprinted

/-- The files are changed and `Save` goes on. -/
theorem Started.moved (h : Started J sha256 sv disk) (hgoing : sv.phase ≠ .returned false) {f : ModuleFiles → ModuleFiles}
    {phase : SavePhase} {placed certified : Option Bytes}
    (hwasm : (f (disk[sv.name]?.getD {})).wasm = placed.or (sv.before[sv.name]?.getD {}).wasm)
    (hman : (f (disk[sv.name]?.getD {})).manifest = certified.or (sv.before[sv.name]?.getD {}).manifest)
    (hpoint : At { sv with phase := phase, placed := placed, certified := certified } (f (disk[sv.name]?.getD {})).tmp) :
    Started J sha256 { sv with phase := phase, placed := placed, certified := certified } (onFiles disk sv.name f) where
  named := h.named
  others name hn := (onFiles_other disk hn f).trans (h.others name hn)
  wasm := by simpa using hwasm
  manifest := by simpa using hman
  text := Or.inr (h.printed hgoing)
  point := by simpa using hpoint
  grows := Or.inr (by simp [onFiles])

/-- Or nothing is changed. -/
theorem Started.turned (h : Started J sha256 sv disk) (hgoing : sv.phase ≠ .returned false) {phase : SavePhase}
    (hpoint : At { sv with phase := phase } (disk[sv.name]?.getD {}).tmp) : Started J sha256 { sv with phase := phase } disk where
  named := h.named
  others := h.others
  wasm := h.wasm
  manifest := h.manifest
  text := Or.inr (h.printed hgoing)
  point := hpoint
  grows := h.grows

theorem Started.call {c : Call} {disk' : StrMap ModuleFiles} (h : Started J sha256 sv disk)
    (hcall : StoreFiles.call sv disk c = some (sv', disk')) : Started J sha256 sv' disk' := by
  obtain ⟨name, version, bytecode, text, before, phase, placed, certified⟩ := sv
  cases phase with
  | entered =>
    obtain ⟨rfl, rfl⟩ : placed = none ∧ certified = none := h.point.fresh (Or.inl rfl)
    cases c with
    | directory ok =>
      cases ok with
      | true =>
        cases hcall
        exact h.moved (by simp) h.wasm h.manifest trivial
      | false =>
        cases hcall
        exact h.turned (by simp) trivial
    | _ => cases hcall
  | directory =>
    obtain ⟨rfl, rfl⟩ : placed = none ∧ certified = none := h.point.fresh (Or.inr (Or.inl rfl))
    cases c with
    | opened ok =>
      cases ok with
      | true =>
        cases hcall
        exact h.moved (by simp) h.wasm h.manifest rfl
      | false =>
        cases hcall
        exact h.turned (by simp) trivial
    | _ => cases hcall
  | writing m =>
    obtain ⟨rfl, rfl⟩ : placed = none ∧ certified = none := h.point.fresh (Or.inr (Or.inr (Or.inl ⟨m, rfl⟩)))
    cases c with
    | wrote n =>
      simp only [StoreFiles.call] at hcall
      split at hcall
      · cases hcall
        exact h.moved (by simp) h.wasm h.manifest rfl
      · cases hcall
    | notWritten =>
      cases hcall
      exact h.turned (by simp) trivial
    | closed =>
      cases hcall
      exact h.turned (by simp) (h.point.tmp (Or.inl rfl))
    | _ => cases hcall
  | written m =>
    obtain ⟨rfl, rfl⟩ : placed = none ∧ certified = none := h.point.fresh (Or.inr (Or.inr (Or.inr ⟨m, rfl⟩)))
    cases c with
    | renamed ok =>
      cases ok with
      | true =>
        cases hcall
        exact h.moved (by simp) (h.point.tmp (Or.inr rfl)) h.manifest (List.take_prefix m bytecode)
      | false =>
        cases hcall
        exact h.turned (by simp) trivial
    | _ => cases hcall
  | renamed =>
    obtain ⟨w, rfl, hw, rfl⟩ : ∃ w, placed = some w ∧ w <+: bytecode ∧ certified = none := h.point.renamed rfl
    cases c with
    | opened ok =>
      cases ok with
      | true =>
        cases hcall
        exact h.moved (by simp) h.wasm rfl ⟨hw, rfl⟩
      | false =>
        cases hcall
        exact h.turned (by simp) hw
    | _ => cases hcall
  | certifying m =>
    obtain ⟨w, rfl, hw, rfl⟩ : ∃ w, placed = some w ∧ w <+: bytecode ∧ certified = some (text.take m) := h.point.certifying rfl
    cases c with
    | wrote n =>
      simp only [StoreFiles.call] at hcall
      split at hcall
      · cases hcall
        exact h.moved (by simp) h.wasm rfl ⟨hw, rfl⟩
      · cases hcall
    | notWritten =>
      simp only [StoreFiles.call] at hcall
      split at hcall
      · rename_i hlt
        cases hcall
        refine h.turned (by simp) ⟨hw, List.take_prefix m text, fun he => ?_⟩
        have he : text.take m = text := he
        have hlen := congrArg List.length he
        rw [List.length_take] at hlen
        have hlt : m < text.length := hlt
        omega
      · cases hcall
    | closed =>
      cases hcall
      exact h.turned (by simp) ⟨hw, List.take_prefix m text⟩
    | _ => cases hcall
  | returned ok => cases c <;> cases hcall

/-! ### Whole runs -/

theorem Named.remove (h : Named J disk) (name : Bytes) (kept : Bool × Bool × Bool) {f₀ : ModuleFiles} (hf₀ : disk[name]? = some f₀) :
    Named J (disk.erase name) ∧ Named J (disk.insert name (keep kept f₀)) := by
  refine ⟨fun n f text hf ht => ?_, fun n f text hf ht => ?_⟩
  · rw [OrdMap.getElem?_erase] at hf
    split at hf
    · cases hf
    · exact h n f text hf ht
  · rw [OrdMap.getElem?_insert] at hf
    split at hf
    · rename_i hn
      subst hn
      cases hf
      simp only [keep] at ht
      split at ht
      · exact h name f₀ text hf₀ ht
      · cases ht
    · exact h n f text hf ht

theorem Inv.boot : Inv J sha256 {} := by
  constructor
  · intro name f text hf
    simp at hf
  · intro sv hsv
    cases hsv

theorem Inv.step {l : Label} (h : Inv J sha256 s) (hstep : StoreFiles.step J sha256 s l = some s') : Inv J sha256 s' := by
  cases l with
  | save name version bytecode now =>
    simp only [StoreFiles.step] at hstep
    split at hstep
    · cases hstep
    · split at hstep
      · cases hstep
        refine ⟨h.named, fun sv hsv => ?_⟩
        cases hsv
        exact ⟨h.named, fun _ _ => rfl, rfl, rfl, Or.inl ⟨rfl, rfl⟩, trivial, Or.inl rfl⟩
      · obtain ⟨text, htext, rfl⟩ := Option.map_eq_some_iff.1 hstep
        refine ⟨h.named, fun sv hsv => ?_⟩
        cases hsv
        exact ⟨h.named, fun _ _ => rfl, rfl, rfl, Or.inr ⟨now, htext⟩, trivial, Or.inl rfl⟩
  | call c =>
    obtain ⟨sv, hsv, hstep⟩ := Option.bind_eq_some_iff.1 hstep
    obtain ⟨⟨sv', disk'⟩, hcall, rfl⟩ := Option.map_eq_some_iff.1 hstep
    have hstarted := (h.started sv hsv).call hcall
    refine ⟨hstarted.named_now, fun sv₁ hsv₁ => ?_⟩
    cases hsv₁
    exact hstarted
  | crash =>
    cases hstep
    exact ⟨h.named, fun sv hsv => by cases hsv⟩
  | remove name kept =>
    simp only [StoreFiles.step] at hstep
    split at hstep
    · cases hstep
    · split at hstep
      · cases hstep
        exact ⟨h.named, fun sv hsv => by cases hsv⟩
      · cases hstep
        refine ⟨?_, fun sv hsv => by cases hsv⟩
        split
        · exact h.named
        · rename_i f₀ hf₀
          split
          · exact (h.named.remove name kept hf₀).1
          · exact (h.named.remove name kept hf₀).2

theorem inv_of_run {ls : List Label} (hrun : run (step J sha256) {} ls = some s) : Inv J sha256 s := by
  have hall : Allowed (step J sha256) (fun _ _ => True) {} ls := .of_forall fun _ _ _ => trivial
  exact run_invariant (Inv J sha256) (fun _ _ _ h _ hs => h.step hs) Inv.boot hall hrun

/-! ## What a restart finds after a crash -/

/-- While the manifest is the old one, what is in place is read by it. -/
theorem contents_placed {old new : ModuleFiles} {w : Bytes} (hw : new.wasm = some w) (hman : new.manifest = old.manifest) :
    contents J sha256 new = (manifestOf J old).bind fun manifest =>
      if sha256 w = manifest.sha256 then some (w, manifest.version) else none := by
  have hof : manifestOf J new = manifestOf J old := by rw [manifestOf, manifestOf, hman]
  simp only [contents, hof, hw, Option.bind_eq_bind, Option.bind_some]

theorem Started.printed_of_placed (h : Started J sha256 sv disk) {w : Bytes} (hplaced : sv.placed = some w) :
    ∃ now, J.dump (manifestJson sv.name sv.version (sha256 sv.bytecode) now sv.bytecode.length) = some sv.text := by
  rcases h.text with ⟨hnone, -⟩ | hprinted
  · rw [hplaced] at hnone
    cases hnone
  · exact hprinted

/-- A manifest that is the new one, or the beginning of it. -/
theorem Started.manifestOf_eq (h : Started J sha256 sv disk) (hcut : Unfinished J) {w t : Bytes} (hplaced : sv.placed = some w)
    (hcert : sv.certified = some t) : manifestOf J (disk[sv.name]?.getD {}) =
      if t = sv.text then some { name := sv.name, version := sv.version, sha256 := sha256 sv.bytecode } else none := by
  obtain ⟨now, hprinted⟩ := h.printed_of_placed hplaced
  have hman := h.manifest
  rw [hcert, Option.some_or] at hman
  by_cases he : t = sv.text
  · have hp := J.parse_dump _ _ hprinted
    rw [manifestJson_reparsed, ← he] at hp
    rw [manifestOf_of_parse hman hp, if_pos he]
  · have hp : J.parse t = none := hcut _ _ _ hprinted (h.point.certified hcert).1 he
    simp [manifestOf, hman, hp, he]

/-- Nothing has been renamed. -/
theorem Started.unplaced (h : Started J sha256 sv disk) (hcut : Unfinished J) (hplaced : sv.placed = none) :
    restored J sha256 disk sv.name = restored J sha256 sv.before sv.name := by
  have hcert : sv.certified = none := by
    cases hc : sv.certified with
    | none => rfl
    | some t =>
      obtain ⟨-, -, w, hw⟩ := h.point.certified hc
      rw [hplaced] at hw
      cases hw
  have hw := h.wasm
  have hman := h.manifest
  rw [hplaced, Option.none_or] at hw
  rw [hcert, Option.none_or] at hman
  rw [restored_eq hcut h.named_now, restored_eq hcut h.named]
  simp only [contents, manifestOf, hw, hman]

/-- The bytecode is in place, the manifest is the old one. -/
theorem Started.uncertified_iff (h : Started J sha256 sv disk) (hcut : Unfinished J) {w : Bytes} (hplaced : sv.placed = some w)
    (hcert : sv.certified = none) (hsha : CollisionFree sha256 sv (restored J sha256 sv.before sv.name)) :
    AllOrNothing J sha256 disk sv ↔ Harmless J sha256 sv := by
  have hw := h.wasm
  have hman := h.manifest
  rw [hplaced, Option.some_or] at hw
  rw [hcert, Option.none_or] at hman
  have hnow : restored J sha256 disk sv.name = _ := restored_eq hcut h.named_now sv.name
  rw [contents_placed hw hman] at hnow
  have hold : restored J sha256 sv.before sv.name = _ := restored_eq hcut h.named sv.name
  have hsame := (hsha w (h.point.placed hplaced)).2
  simp only [AllOrNothing, Harmless, hplaced, hcert, hnow]
  rw [contents] at hold
  cases hm : manifestOf J (sv.before[sv.name]?.getD {}) with
  | none =>
    rw [hm] at hold
    have hold : restored J sha256 sv.before sv.name = none := hold
    simp [hold]
  | some manifest =>
    rw [hm] at hold
    simp only [Option.bind_eq_bind, Option.bind_some] at hold ⊢
    cases hr : restored J sha256 sv.before sv.name with
    | none =>
      by_cases hcertifies : sha256 w = manifest.sha256
      · simp [hcertifies, and_comm]
      · simp [hcertifies]
    | some old =>
      obtain ⟨b, v⟩ := old
      rw [hr] at hold hsame
      obtain ⟨bytes, -, hif⟩ := Option.bind_eq_some_iff.1 hold.symm
      split at hif
      · rename_i hcertified
        cases hif
        by_cases hcertifies : sha256 w = manifest.sha256
        · have hwb : w = b := hsame (b, manifest.version) rfl (hcertifies.trans hcertified.symm)
          simp [hwb, hcertified]
        · have hwb : w ≠ b := fun he => hcertifies (he ▸ hcertified)
          simp [hcertifies, hwb]
      · cases hif

/-- The new manifest has been begun. -/
theorem Started.certified_iff (h : Started J sha256 sv disk) (hcut : Unfinished J) {w t : Bytes} (hplaced : sv.placed = some w)
    (hcert : sv.certified = some t) (hsha : CollisionFree sha256 sv (restored J sha256 sv.before sv.name)) :
    AllOrNothing J sha256 disk sv ↔ Harmless J sha256 sv := by
  obtain ⟨-, hno, -⟩ := h.point.certified hcert
  have hw := h.wasm
  rw [hplaced, Option.some_or] at hw
  have hnow : restored J sha256 disk sv.name =
      if t = sv.text ∧ sha256 w = sha256 sv.bytecode then some (w, sv.version) else none := by
    rw [restored_eq hcut h.named_now, contents, h.manifestOf_eq hcut hplaced hcert]
    by_cases he : t = sv.text <;> simp [he, hw]
  have hsame := (hsha w (h.point.placed hplaced)).1
  simp only [AllOrNothing, Harmless, hplaced, hcert, hnow]
  by_cases hdone : t = sv.text ∧ sha256 w = sha256 sv.bytecode
  · have hwb : w = sv.bytecode := hsame hdone.2
    have hphase : sv.phase ≠ .returned false := fun hp => hno hp hdone.1
    simp [hdone, hwb, hphase]
  · have hnot : ¬ (w = sv.bytecode ∧ t = sv.text) := fun hb => hdone ⟨hb.2, by rw [hb.1]⟩
    rw [if_neg hdone]
    simp only [hnot, or_false]
    constructor
    · rintro ⟨hkept | hnew, -⟩
      · exact hkept.symm
      · cases hnew
    · intro hnone
      exact ⟨Or.inl hnone.symm, fun _ => hnone.symm⟩

end

/-- **Saving a module is all or nothing exactly when** the cut does not fall between the rename and the end of the
manifest, or nothing was stored before, or the bytecode is the stored one and the manifest still says so. -/
theorem all_or_nothing_iff (J : JsonLib) (sha256 : Bytes → Bytes) (hcut : Unfinished J) (ls : List Label) (s : StoreFiles)
    (hrun : run (step J sha256) {} ls = some s) (sv : Saving) (hsv : s.saving = some sv)
    (hsha : CollisionFree sha256 sv (restored J sha256 sv.before sv.name)) :
    AllOrNothing J sha256 s.disk sv ↔ Harmless J sha256 sv := by
  have hstarted := (inv_of_run hrun).started sv hsv
  cases hplaced : sv.placed with
  | none =>
    have hsame := hstarted.unplaced hcut hplaced
    exact iff_of_true ⟨Or.inl hsame, fun _ => hsame⟩ (by rw [Harmless, hplaced]; trivial)
  | some w =>
    cases hcert : sv.certified with
    | none => exact hstarted.uncertified_iff hcut hplaced hcert hsha
    | some t => exact hstarted.certified_iff hcut hplaced hcert hsha

/-- No other module is touched. -/
theorem others_restored (J : JsonLib) (sha256 : Bytes → Bytes) (hcut : Unfinished J) (ls : List Label) (s : StoreFiles)
    (hrun : run (step J sha256) {} ls = some s) (sv : Saving) (hsv : s.saving = some sv) (name : Bytes) (hname : name ≠ sv.name) :
    restored J sha256 s.disk name = restored J sha256 sv.before name := by
  have hstarted := (inv_of_run hrun).started sv hsv
  rw [restored_eq hcut hstarted.named_now, restored_eq hcut hstarted.named, hstarted.others name hname]

/-! ## A whole `Save` -/

/-- The store, file by file, as one that is written at once. -/
def storeOf (J : JsonLib) (s : StoreFiles) : ModuleStore :=
  { dirs := s.disk.map fun _ f => { wasm := f.wasm, manifest := manifestOf J f },
    index := s.index.map fun _ info => info.toStoredModuleInfo }

/-- What `Save` was called with. -/
def request (sv : Saving) : Bytes × Bytes × Bytes × StrMap ModuleFiles := (sv.name, sv.version, sv.bytecode, sv.before)

section
variable {J : JsonLib} {sha256 : Bytes → Bytes} {disk disk' : StrMap ModuleFiles} {s s' : StoreFiles} {sv sv' : Saving}

theorem call_request {c : Call} (hcall : call sv disk c = some (sv', disk')) :
    request sv' = request sv ∧ sv.phase ≠ .returned true := by
  obtain ⟨name, version, bytecode, text, before, phase, placed, certified⟩ := sv
  cases c with
  | directory ok => cases phase <;> cases ok <;> cases hcall <;> exact ⟨rfl, by simp⟩
  | opened ok => cases phase <;> cases ok <;> cases hcall <;> exact ⟨rfl, by simp⟩
  | renamed ok => cases phase <;> cases ok <;> cases hcall <;> exact ⟨rfl, by simp⟩
  | closed => cases phase <;> cases hcall <;> exact ⟨rfl, by simp⟩
  | wrote n =>
    cases phase with
    | writing m | certifying m =>
      simp only [call] at hcall
      split at hcall <;> cases hcall
      exact ⟨rfl, by simp⟩
    | _ => cases hcall
  | notWritten =>
    cases phase with
    | writing m =>
      cases hcall
      exact ⟨rfl, by simp⟩
    | certifying m =>
      simp only [call] at hcall
      split at hcall <;> cases hcall
      exact ⟨rfl, by simp⟩
    | _ => cases hcall

/-- The calls of one `Save`, one after the other. -/
theorem calls_run {calls : List Call} {index : StrMap StoredFile} (hsv : s.saving = some sv)
    (hstarted : Started J sha256 sv s.disk) (hindex : s.index = indexed sha256 index sv)
    (hrun : run (step J sha256) s (calls.map .call) = some s') :
    ∃ sv', s'.saving = some sv' ∧ request sv' = request sv ∧ Started J sha256 sv' s'.disk ∧
      s'.index = indexed sha256 index sv' := by
  induction calls generalizing s sv with
  | nil =>
    cases hrun
    exact ⟨sv, hsv, rfl, hstarted, hindex⟩
  | cons c calls ih =>
    simp only [List.map_cons, run] at hrun
    cases hstep : step J sha256 s (.call c) with
    | none =>
      rw [hstep] at hrun
      cases hrun
    | some s₁ =>
      rw [hstep] at hrun
      simp only [step, hsv, Option.bind_some] at hstep
      obtain ⟨⟨sv₁, disk₁⟩, hcall, rfl⟩ := Option.map_eq_some_iff.1 hstep
      obtain ⟨hreq, hphase⟩ := call_request hcall
      have hindex₁ : indexed sha256 s.index sv₁ = indexed sha256 index sv₁ := by
        rw [hindex, indexed, indexed, indexed, if_neg hphase]
      obtain ⟨sv', hsv', hreq', hrest⟩ := ih rfl (hstarted.call hcall) hindex₁ hrun
      exact ⟨sv', hsv', hreq'.trans hreq, hrest⟩

theorem storeOf_dir (s : StoreFiles) (name : Bytes) : (storeOf J s).dirs[name]?.getD {} =
    { wasm := (s.disk[name]?.getD {}).wasm, manifest := manifestOf J (s.disk[name]?.getD {}) } := by
  simp only [storeOf, Std.ExtTreeMap.getElem?_map]
  cases s.disk[name]? <;> rfl

/-- The directories but for that of the module. -/
theorem storeOf_dirs (h : Started J sha256 sv s.disk) {s₀ : StoreFiles} (hbefore : sv.before = s₀.disk)
    (hsome : s.disk[sv.name]?.isSome = true) :
    (storeOf J s).dirs = (storeOf J s₀).dirs.insert sv.name ((storeOf J s).dirs[sv.name]?.getD {}) := by
  refine Std.ExtTreeMap.ext_getElem? fun n => ?_
  rw [OrdMap.getElem?_insert]
  by_cases hn : sv.name = n
  · subst hn
    obtain ⟨f, hf⟩ := Option.isSome_iff_exists.1 hsome
    simp [storeOf, hf]
  · rw [if_neg hn]
    simp [storeOf, h.others n (Ne.symm hn), hbefore]

theorem storeOf_indexed (index : StrMap StoredFile) (sv : Saving) :
    (indexed sha256 index sv).map (fun _ info => info.toStoredModuleInfo) =
      if sv.phase = .returned true then
        (index.map fun _ info => info.toStoredModuleInfo).insert sv.name { version := sv.version, sha256 := sha256 sv.bytecode }
      else index.map fun _ info => info.toStoredModuleInfo := by
  unfold indexed
  split
  · refine Std.ExtTreeMap.ext_getElem? fun n => ?_
    rw [OrdMap.getElem?_insert, Std.ExtTreeMap.getElem?_map, Std.ExtTreeMap.getElem?_map, OrdMap.getElem?_insert]
    split <;> rfl
  · rfl

end

/-- What a `Save` that has returned has made of the store. -/
theorem Started.save_eq {J : JsonLib} {sha256 : Bytes → Bytes} {s₀ s : StoreFiles} {sv : Saving} (hcut : Unfinished J)
    (h : Started J sha256 sv s.disk) (hbefore : sv.before = s₀.disk) (hindex : s.index = indexed sha256 s₀.index sv)
    (hname : validModuleName sv.name = true) {ok : Bool} (hret : sv.phase = .returned ok) :
    ∃ io r, (storeOf J s₀).save sha256 sv.name sv.version sv.bytecode io = (r, storeOf J s) ∧ (r = .ok () ↔ ok = true) := by
  have hdir := storeOf_dir (J := J) s₀ sv.name
  have hnow := storeOf_dir (J := J) s sv.name
  rw [h.wasm, hbefore] at hnow
  have hdirs : s.disk[sv.name]?.isSome = true → (storeOf J s).dirs =
      (storeOf J s₀).dirs.insert sv.name ((storeOf J s).dirs[sv.name]?.getD {}) := storeOf_dirs h hbefore
  have hindexed : (storeOf J s).index = if sv.phase = .returned true then
      (storeOf J s₀).index.insert sv.name { version := sv.version, sha256 := sha256 sv.bytecode } else (storeOf J s₀).index := by
    rw [storeOf, hindex]
    exact storeOf_indexed s₀.index sv
  -- the store is given by its two maps
  have hstore : ∀ {dirs : StrMap ModuleDir} {index : StrMap StoredModuleInfo}, (storeOf J s).dirs = dirs →
      (storeOf J s).index = index → storeOf J s = { dirs := dirs, index := index } := by
    rintro _ _ rfl rfl
    rfl
  have hsave : ∀ io, (storeOf J s₀).save sha256 sv.name sv.version sv.bytecode io = _ := fun io => by
    rw [ModuleStore.save, if_neg (by simp [hname])]
  cases hplaced : sv.placed with
  | none =>
    obtain ⟨hcert, hno⟩ := h.point.unplaced hplaced
    cases hno ok hret
    have hman := h.manifest
    rw [hcert, Option.none_or, hbefore] at hman
    have hsame : (storeOf J s).dirs[sv.name]?.getD {} = (storeOf J s₀).dirs[sv.name]?.getD {} := by
      rw [hnow, hdir, hplaced, Option.none_or, manifestOf, manifestOf, hman]
    rw [hret, if_neg (by decide)] at hindexed
    rcases h.grows with hkept | hsome
    · have hkeptDirs : (storeOf J s).dirs = (storeOf J s₀).dirs := by
        refine Std.ExtTreeMap.ext_getElem? fun n => ?_
        by_cases hn : n = sv.name
        · simp [storeOf, hn, hkept, hbefore]
        · simp [storeOf, h.others n hn, hbefore]
      refine ⟨.noDirectory [], .error (str "cannot create module directory: " ++ []), ?_, by simp⟩
      rw [hsave, hstore hkeptDirs hindexed]
    · refine ⟨.notWritten, .error (str "failed to write module bytecode"), ?_, by simp⟩
      rw [hsave, hstore (hdirs hsome) hindexed, hsame]
  | some w =>
    have hsome : s.disk[sv.name]?.isSome = true := by
      cases hd : s.disk[sv.name]? with
      | none =>
        have hw := h.wasm
        rw [hd, hplaced, Option.some_or] at hw
        cases hw
      | some f => rfl
    rw [hplaced, Option.some_or] at hnow
    cases hcert : sv.certified with
    | none =>
      cases ok with
      | true =>
        obtain ⟨t, ht⟩ := h.point.finished hret
        rw [hcert] at ht
        cases ht
      | false =>
        have hman := h.manifest
        rw [hcert, Option.none_or, hbefore] at hman
        have hthere : (storeOf J s).dirs[sv.name]?.getD {} =
            { (storeOf J s₀).dirs[sv.name]?.getD {} with wasm := some w } := by
          rw [hnow, hdir, manifestOf, manifestOf, hman]
        rw [hret, if_neg (by decide)] at hindexed
        refine ⟨.noManifest w, .error (str "failed to write manifest"), ?_, by simp⟩
        rw [hsave, hstore (hdirs hsome) hindexed, hthere]
    | some t =>
      rw [h.manifestOf_eq hcut hplaced hcert] at hnow
      cases ok with
      | false =>
        rw [if_neg ((h.point.certified hcert).2.1 hret)] at hnow
        rw [hret, if_neg (by decide)] at hindexed
        refine ⟨.badManifest w, .error (str "failed to write manifest"), ?_, by simp⟩
        rw [hsave, hstore (hdirs hsome) hindexed, hnow]
      | true =>
        rw [if_pos hret] at hindexed
        refine ⟨.lost w (decide (t = sv.text)), .ok (), ?_, by simp⟩
        rw [hsave, hstore (hdirs hsome) hindexed, hnow]
        simp

/-- **A `Save` call by call is `save`.** -/
theorem save_refines (J : JsonLib) (sha256 : Bytes → Bytes) (hcut : Unfinished J) (ls : List Label) (s₀ : StoreFiles)
    (hrun₀ : run (step J sha256) {} ls = some s₀) (name version bytecode : Bytes) (now : Nat) (calls : List Call) (s : StoreFiles)
    (hrun : run (step J sha256) s₀ (.save name version bytecode now :: calls.map .call) = some s) (ok : Bool)
    (hret : s.saving.map Saving.phase = some (.returned ok)) :
    ∃ io r, (storeOf J s₀).save sha256 name version bytecode io = (r, storeOf J s) ∧ (r = .ok () ↔ ok = true) := by
  have hinv := inv_of_run hrun₀
  simp only [run, step] at hrun
  split at hrun
  · cases hrun
  · rename_i s₁ hstep
    split at hstep
    · cases hstep
    · split at hstep
      · rename_i hinvalid
        cases hstep
        cases calls with
        | nil =>
          cases hrun
          cases hret
          exact ⟨.ok, _, by rw [ModuleStore.save, if_pos hinvalid]; rfl, by simp⟩
        | cons c calls =>
          cases c <;> cases hrun
      · rename_i hvalid
        obtain ⟨text, htext, rfl⟩ := Option.map_eq_some_iff.1 hstep
        let s₁ : StoreFiles := { s₀ with saving := some ⟨name, version, bytecode, text, s₀.disk, .entered, none, none⟩ }
        have hentered : Started J sha256 ⟨name, version, bytecode, text, s₀.disk, .entered, none, none⟩ s₁.disk :=
          ⟨hinv.named, fun _ _ => rfl, rfl, rfl, Or.inr ⟨now, htext⟩, trivial, Or.inl rfl⟩
        have hentry : s₁.index = indexed sha256 s₀.index ⟨name, version, bytecode, text, s₀.disk, .entered, none, none⟩ := rfl
        obtain ⟨sv, hsv, hreq, hstarted, hindex⟩ := calls_run rfl hentered hentry hrun
        simp only [request, Prod.mk.injEq] at hreq
        obtain ⟨rfl, rfl, rfl, hbefore⟩ := hreq
        rw [hsv, Option.map_some, Option.some.injEq] at hret
        exact hstarted.save_eq hcut hbefore hindex (by simpa using hvalid) hret

/-! ## Two versions of a module -/

theorem unfinished_ofTable {docs : List (Json × Bytes)} (h : ∀ d ∈ docs, d.2 ≠ [] ∧ parseTable docs d.2 = some d.1.reparsed)
    (hcut : ∀ d ∈ docs, ∀ d' ∈ docs, d'.2 <+: d.2 → d'.2 = d.2) : Unfinished (.ofTable docs h) := by
  intro m text cut hdump hle hne
  obtain ⟨l₁, l₂, hdocs, -⟩ := List.lookup_eq_some_iff.1 hdump
  have hmem : (.object m, text) ∈ docs := by simp [hdocs]
  have hnone : (docs.find? fun d => d.2 = cut) = none := by
    rw [List.find?_eq_none]
    intro d hd he
    have he : d.2 = cut := of_decide_eq_true he
    have htext := hcut _ hmem d hd (by rw [he]; exact hle)
    exact hne (he.symm.trans htext)
  have hparse : parseTable docs cut = none := by rw [parseTable, hnone]; rfl
  exact hparse

/-- The same module with a section of its own. -/
def noReducerNamed : Bytes := Modules.noReducer ++ [0, 2, 1, 120]

def twoSha (b : Bytes) : Bytes :=
  if b = noReducerNamed then str "f12a52040812db0665e230e1a8c206a4f96f8106ca17c00f4edb7d69ed99ab68" else Modules.noReducerSha b

def firstText : Bytes := str "\x7b\n  \"deployed_at_ms\": 1,\n  \"name\": \"m\",\n  \"sha256\": \"27886f5735f43a75064747edda79e060bb99695fc8a866372f8315a57867cece\",\n  \"size_bytes\": 96,\n  \"version\": \"1.0\"\n\x7d"

def secondText : Bytes := str "\x7b\n  \"deployed_at_ms\": 2,\n  \"name\": \"m\",\n  \"sha256\": \"f12a52040812db0665e230e1a8c206a4f96f8106ca17c00f4edb7d69ed99ab68\",\n  \"size_bytes\": 100,\n  \"version\": \"2.0\"\n\x7d"

def manifests : List (Json × Bytes) :=
  [(manifestJson (str "m") (str "1.0") (twoSha Modules.noReducer) 1 96, firstText),
   (manifestJson (str "m") (str "2.0") (twoSha noReducerNamed) 2 100, secondText)]

def twoLib : JsonLib := .ofTable manifests (by decide +kernel)

theorem twoLib_unfinished : Unfinished twoLib := unfinished_ofTable _ (by decide +kernel)

theorem twoSha_collisionFree (sv : Saving) (hsv : sv.bytecode = noReducerNamed) (version : Bytes) :
    CollisionFree twoSha sv (some (Modules.noReducer, version)) := by
  obtain ⟨hne, hempty, hnone⟩ : twoSha noReducerNamed ≠ twoSha Modules.noReducer ∧ twoSha noReducerNamed ≠ [] ∧
      twoSha Modules.noReducer ≠ [] := by decide +kernel
  have hother : ∀ w, w ≠ noReducerNamed → w ≠ Modules.noReducer → twoSha w = [] := by
    intro w h₁ h₂
    simp [twoSha, Modules.noReducerSha, h₁, h₂]
  intro w _
  rw [hsv]
  by_cases h₁ : w = noReducerNamed
  · subst h₁
    refine ⟨fun _ => rfl, fun p hp he => ?_⟩
    cases hp
    exact absurd he hne
  · by_cases h₂ : w = Modules.noReducer
    · subst h₂
      refine ⟨fun he => absurd he.symm hne, fun p hp _ => ?_⟩
      cases hp
      rfl
    · rw [hother w h₁ h₂]
      refine ⟨fun he => absurd he hempty.symm, fun p hp he => ?_⟩
      cases hp
      exact absurd he.symm hnone

/-- The calls of a `Save` in which nothing fails. -/
def saved (version bytecode text : Bytes) (now : Nat) : List Label :=
  .save (str "m") version bytecode now ::
    [Call.directory true, .opened true, .wrote bytecode.length, .closed, .renamed true, .opened true, .wrote text.length,
      .closed].map .call

/-- The second version over the first, as far as `n` calls go. -/
def upgraded (n : Nat) : List Label :=
  saved (str "1.0") Modules.noReducer firstText 1 ++ (saved (str "2.0") noReducerNamed secondText 2).take (n + 1)

theorem all_or_nothing_upgraded : ∃ s sv, run (step twoLib twoSha) {} (upgraded 8) = some s ∧ s.saving = some sv ∧
    restored twoLib twoSha sv.before (str "m") = some (Modules.noReducer, str "1.0") ∧ AllOrNothing twoLib twoSha s.disk sv := by
  have hfacts : (run (step twoLib twoSha) {} (upgraded 8)).bind (fun s => s.saving.map fun sv =>
      decide (sv.name = str "m" ∧ sv.bytecode = noReducerNamed ∧ sv.placed = some noReducerNamed ∧
        sv.certified = some secondText ∧ sv.text = secondText ∧
        restored twoLib twoSha sv.before (str "m") = some (Modules.noReducer, str "1.0"))) = some true := by
    decide +kernel
  obtain ⟨s, hrun, hs⟩ := Option.bind_eq_some_iff.1 hfacts
  obtain ⟨sv, hsv, hs⟩ := Option.map_eq_some_iff.1 hs
  obtain ⟨hname, hbytecode, hplaced, hcert, htext, hold⟩ := of_decide_eq_true hs
  have hsha : CollisionFree twoSha sv (restored twoLib twoSha sv.before sv.name) := by
    rw [hname, hold]
    exact twoSha_collisionFree sv hbytecode _
  refine ⟨s, sv, hrun, hsv, hold, (all_or_nothing_iff twoLib twoSha twoLib_unfinished _ s hrun sv hsv hsha).2 ?_⟩
  simp only [Harmless, hplaced, hcert]
  exact Or.inr ⟨hbytecode.symm, htext.symm⟩

/-- A crash right after the rename leaves neither version. -/
theorem upgrade_loses_both : ∃ s sv, run (step twoLib twoSha) {} (upgraded 5) = some s ∧ s.saving = some sv ∧
    restored twoLib twoSha sv.before (str "m") = some (Modules.noReducer, str "1.0") ∧
    restored twoLib twoSha s.disk (str "m") = none ∧ ¬ AllOrNothing twoLib twoSha s.disk sv := by
  have hfacts : (run (step twoLib twoSha) {} (upgraded 5)).bind (fun s => s.saving.map fun sv =>
      (sv.name, restored twoLib twoSha sv.before (str "m"), restored twoLib twoSha s.disk (str "m"))) =
      some (str "m", some (Modules.noReducer, str "1.0"), none) := by
    decide +kernel
  obtain ⟨s, hrun, hs⟩ := Option.bind_eq_some_iff.1 hfacts
  obtain ⟨sv, hsv, hs⟩ := Option.map_eq_some_iff.1 hs
  simp only [Prod.mk.injEq] at hs
  obtain ⟨hname, hold, hnow⟩ := hs
  refine ⟨s, sv, hrun, hsv, hold, hnow, fun h => ?_⟩
  rw [AllOrNothing, hname, hold, hnow] at h
  rcases h.1 with h | h <;> cases h

end StoreFiles

end Wasm

end OriginDB
