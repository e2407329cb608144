import Mathlib.Data.List.Permutation
import OriginDB.Lib.Machine
import OriginDB.Wasm.StagedWrites
/-!
# Calls of a module while it is redeployed (`wasm_engine.cpp:137-243, 291-357, 725-732`)

`Execute` holds the `call_mutex` of the instance it runs on, so the calls of one instance come one after
the other. `LoadModule` makes a second instance, runs `__init` and `__migrate` on it and puts it in
`modules_`, while calls that took the first one from there go on. Both read and write the same tables, and
nothing but the two mutexes stands between them: a call on the old instance overwrites what a call on the
new one has committed since it read.

| here | there |
| --- | --- |
| `arrive`, `getModule` | `ExecuteReducer` (`:725`), `GetModule` |
| `load`                | `LoadModule` up to the version gate (`:137-198`); `accepted` is its outcome |
| `lock`                | `call_mutex` (`:295`) |
| `host`                | one host function of the running call |
| `finish`              | the end of `Execute`: the status, `CommitHostCall`, the mutex is free again |
| `publish`             | `modules_[name] = module` (`:225`) |

`committed` is a history variable: the calls that committed, in the order in which they did.
-/
namespace OriginDB

open JsonDoc ByteCodec Machine Lists

namespace Wasm

/-! ## A call step by step -/

section
variable (J : JsonLib) (caps : ModuleCapabilities) (s : Store)

/-- One host function, or the end of the call. -/
def Guest.next : Guest → HostCallContext → (HostCallContext × GuestEnd) ⊕ (Guest × HostCallContext)
  | .returns status, call => .inl (call, .returned status)
  | .traps message, call => .inl (call, .trapped message)
  | .abort message, call => .inl ({ call with abortMsg := message }, .trapped (str "aborted: " ++ message))
  | .read table key next, call =>
    match hostTableRead J caps s call table key with
    | none => .inl (call, .threw)
    | some (code, text) => .inr (next code text, call)
  | .write table key value next, call =>
    let r := hostTableWrite J caps call table key value
    .inr (next r.1, r.2)
  | .delete table key next, call =>
    let r := hostTableDelete caps call table key
    .inr (next r.1, r.2)
  | .scan table start limit next, call =>
    match hostTableScan J caps s call table start limit with
    | none => .inl (call, .threw)
    | some (code, text) => .inr (next code text, call)
  | .emit topic key payload next, call => .inr (next, { call with events := call.events ++ [⟨topic, key, payload⟩] })
  | .setResult payload next, call => .inr (next, { call with result := some payload })

/-- An answer a call was given from the tables. -/
inductive HostRead where
  | read (call : HostCallContext) (table key : Bytes) (answer : Option (Int32 × Bytes))
  | scan (call : HostCallContext) (table start : Bytes) (limit : Int32) (answer : Option (Int32 × Bytes))

/-- It would be given the same answer now. -/
def HostRead.Holds : HostRead → Prop
  | .read call table key answer => hostTableRead J caps s call table key = answer
  | .scan call table start limit answer => hostTableScan J caps s call table start limit = answer

/-- What the next step of a call reads. -/
def Guest.reads : Guest → HostCallContext → List HostRead
  | .read table key _, call => [.read call table key (hostTableRead J caps s call table key)]
  | .scan table start limit _, call => [.scan call table start limit (hostTableScan J caps s call table start limit)]
  | _, _ => []

end

instance (J : JsonLib) (caps : ModuleCapabilities) (s : Store) : (r : HostRead) → Decidable (r.Holds J caps s)
  | .read call table key answer => inferInstanceAs (Decidable (hostTableRead J caps s call table key = answer))
  | .scan call table start limit answer => inferInstanceAs (Decidable (hostTableScan J caps s call table start limit = answer))

theorem run_eq_next (J : JsonLib) (caps : ModuleCapabilities) (s : Store) (g : Guest) (call : HostCallContext) :
    g.run J caps s call = match g.next J caps s call with
      | .inl r => r
      | .inr (g', call') => g'.run J caps s call' := by
  cases g with
  | read table key next =>
    simp only [Guest.run, Guest.next]
    cases hostTableRead J caps s call table key <;> rfl
  | scan table start limit next =>
    simp only [Guest.run, Guest.next]
    cases hostTableScan J caps s call table start limit <;> rfl
  | _ => rfl

/-- Where a step is answered the same, it goes the same way. -/
theorem next_of_reads {J : JsonLib} {caps : ModuleCapabilities} {s t : Store} {g : Guest} {call : HostCallContext}
    (h : ∀ r ∈ g.reads J caps s call, r.Holds J caps t) : g.next J caps t call = g.next J caps s call := by
  cases g with
  | read table key next =>
    have hr : hostTableRead J caps t call table key = hostTableRead J caps s call table key := h _ (List.mem_singleton.2 rfl)
    simp only [Guest.next, hr]
  | scan table start limit next =>
    have hr : hostTableScan J caps t call table start limit = hostTableScan J caps s call table start limit :=
      h _ (List.mem_singleton.2 rfl)
    simp only [Guest.next, hr]
  | _ => rfl

theorem reads_hold {J : JsonLib} {caps : ModuleCapabilities} {s : Store} {g : Guest} {call : HostCallContext} {r : HostRead}
    (h : r ∈ g.reads J caps s call) : r.Holds J caps s := by
  cases g with
  | read table key next =>
    rw [List.mem_singleton.1 h]
    rfl
  | scan table start limit next =>
    rw [List.mem_singleton.1 h]
    rfl
  | _ => cases h

/-! ## The engine -/

/-- An `Execute` on its way. -/
structure Invocation where
  inst : Nat
  caps : ModuleCapabilities
  reducer : Bytes
  start : Guest
  locked : Bool := false
  guest : Guest
  call : HostCallContext := {}
  reads : List HostRead := []

inductive Thread where
  | arrived (reducer : Bytes)
  | call (inv : Invocation)
  /-- `LoadModule` in `__init`; `__migrate` follows if there was a module before. -/
  | init (inv : Invocation) (migrate : Option Guest)
  | migrate (inv : Invocation)
  | publish (inst : Nat)
  | done

structure Committed where
  caps : ModuleCapabilities
  reducer : Bytes
  guest : Guest
  io : Io

structure HotSwap where
  store : Store
  instances : List ModuleCapabilities
  serving : Option Nat
  threads : List Thread := []
  committed : List Committed := []

namespace Thread

def invocation : Thread → Option Invocation
  | .call inv | .init inv _ | .migrate inv => some inv
  | _ => none

def setInvocation (inv : Invocation) : Thread → Thread
  | .call _ => .call inv
  | .init _ hook => .init inv hook
  | .migrate _ => .migrate inv
  | th => th

/-- What follows a call that ended. -/
def ended (ok : Bool) : Thread → Thread
  | .init inv hook =>
    if ok then
      match hook with
      | some g => .migrate { inst := inv.inst, caps := inv.caps, reducer := str "__migrate", start := g, guest := g }
      | none => .publish inv.inst
    else .done
  | .migrate inv => if ok then .publish inv.inst else .done
  | _ => .done

end Thread

namespace HotSwap

inductive Label where
  | arrive (reducer : Bytes)
  | getModule (i : Nat) (guest : Guest)
  | load (caps : ModuleCapabilities) (accepted : Bool) (init migrate : Guest)
  | lock (i : Nat)
  | host (i : Nat)
  | finish (i : Nat) (io : Io)
  | publish (i : Nat)

def invocation (s : HotSwap) (i : Nat) : Option Invocation := s.threads[i]?.bind Thread.invocation

/-- A call is running on the instance. -/
def busy (s : HotSwap) (inst : Nat) : Bool :=
  s.threads.any fun th => th.invocation.any fun inv => inv.locked && inv.inst = inst

section
variable (env : Env) (maxLag : Nat) (moduleName : Bytes)

/-- The end of `Execute` (wasm_engine.cpp:318-356): the tables, has the call succeeded, has it committed? -/
def endCall (io : Io) (reducer : Bytes) (s : Store) : HostCallContext × GuestEnd → Store × Bool × Bool
  | (_, .threw) | (_, .trapped _) => (s, false, false)
  | (call, .returned status) =>
    if status = errNoHandler then (s, isReservedName reducer, false)
    else if status < 0 then (s, false, false)
    else match commitHostCall env maxLag io moduleName call s with
      | .threw s => (s, false, false)
      | .returned (.error _) s => (s, false, false)
      | .returned (.ok _) s => (s, true, true)

def step (s : HotSwap) : Label → Option HotSwap
  | .arrive reducer => some { s with threads := s.threads ++ [.arrived reducer] }
  | .getModule i guest =>
    match s.threads[i]? with
    | some (.arrived reducer) =>
      match s.serving with
      | none => some { s with threads := s.threads.set i .done }
      | some inst => s.instances[inst]?.map fun caps =>
          let inv : Invocation := { inst := inst, caps := caps, reducer := reducer, start := guest, guest := guest }
          { s with threads := s.threads.set i (.call inv) }
    | _ => none
  | .load caps accepted init migrate =>
    let inst := s.instances.length
    let thread : Thread :=
      if accepted then
        .init { inst := inst, caps := caps, reducer := str "__init", start := init, guest := init } (s.serving.map fun _ => migrate)
      else .done
    some { s with instances := s.instances ++ [caps], threads := s.threads ++ [thread] }
  | .lock i =>
    match s.threads[i]?, s.invocation i with
    | some th, some inv =>
      if inv.locked ∨ s.busy inv.inst then none
      else some { s with threads := s.threads.set i (th.setInvocation { inv with locked := true }) }
    | _, _ => none
  | .host i =>
    match s.threads[i]?, s.invocation i with
    | some th, some inv =>
      if inv.locked then
        match inv.guest.next env.toJsonLib inv.caps s.store inv.call with
        | .inl _ => none
        | .inr (guest, call) =>
          let reads := inv.reads ++ inv.guest.reads env.toJsonLib inv.caps s.store inv.call
          some { s with threads := s.threads.set i (th.setInvocation { inv with guest := guest, call := call, reads := reads }) }
      else none
    | _, _ => none
  | .finish i io =>
    match s.threads[i]?, s.invocation i with
    | some th, some inv =>
      if inv.locked then
        match inv.guest.next env.toJsonLib inv.caps s.store inv.call with
        | .inr _ => none
        | .inl r =>
          let (store, ok, committed) := endCall env maxLag moduleName io inv.reducer s.store r
          some { s with
            store := store
            threads := s.threads.set i (th.ended ok)
            committed := s.committed ++ if committed then [⟨inv.caps, inv.reducer, inv.start, io⟩] else [] }
      else none
    | _, _ => none
  | .publish i =>
    match s.threads[i]? with
    | some (.publish inst) => some { s with serving := some inst, threads := s.threads.set i .done }
    | _ => none

/-- The calls one after the other, nobody in between. -/
def serial : List Committed → Store → Option Store
  | [], s => some s
  | c :: cs, s =>
    match execute env maxLag c.io c.caps moduleName c.reducer {} c.guest s with
    | .returned r s => if r.success then serial cs s else none
    | .threw _ => none

end

end HotSwap

/-! ## The condition -/

/-- The commit takes effect as a whole, or not at all. -/
def AllOrNothing (J : JsonLib) (io : Io) (s : Store) (o : Overlay) : Prop :=
  (io.durable = true ∧ SchemasPrint J s o.toList ∧ ∀ x ∈ o.entries, EntryCommits J s x) ∨
  (TablesThere s o ∧ FirstDeleteMisses s o)

/-- What the call commits, once it has ended well. -/
def Invocation.commits (J : JsonLib) (s : Store) (inv : Invocation) : Option HostCallContext :=
  match inv.guest.next J inv.caps s inv.call with
  | .inl (call, .returned status) => if status < 0 then none else some call
  | _ => none

/-- When a call commits, what it has read is still so, whatever calls on other instances have committed
since. Besides, its commit takes effect as a whole or not at all. -/
def HotSwap.Current (J : JsonLib) (s : HotSwap) : HotSwap.Label → Prop
  | .finish i io => ∀ inv ∈ s.invocation i, ∀ call ∈ inv.commits J s.store,
      (∀ r ∈ inv.reads, r.Holds J inv.caps s.store) ∧ AllOrNothing J io s.store call.overlay
  | _ => True

instance (J : JsonLib) (s : Store) (l : List (Bytes × StrMap (Option Json))) : Decidable (SchemasPrint J s l) :=
  inferInstanceAs (Decidable (∀ p ∈ l, s.getTable p.1 = none → ∀ v ∈ firstWrite p.2,
    (serializeSchema J (schemaFromJson p.1 v)).isSome = true))

instance (J : JsonLib) (s : Store) (x : Bytes × Bytes × Option Json) : Decidable (EntryCommits J s x) :=
  decidable_of_iff ((x.2.2 = none → (s.get x.1 x.2.1).isSome = true) ∧
      (∀ v ∈ x.2.2, ∃ row ∈ jsonToRow J x.2.1 v, (serializeRow J row).isSome = true) ∧
      ∀ r ∈ s.get x.1 x.2.1, (serializeRow J r).isSome = true)
    ⟨fun h => ⟨h.1, h.2.1, h.2.2⟩, fun h => ⟨h.there, h.new, h.old⟩⟩

instance (s : Store) (o : Overlay) : Decidable (TablesThere s o) :=
  decidable_of_iff (∀ p ∈ o.toList, (firstWrite p.2).isSome = true → (s.getTable p.1).isSome = true)
    ⟨fun h t writes hw => h (t, writes) (Std.ExtTreeMap.mem_toList_iff_getElem?_eq_some.2 hw),
     fun h p hp => h p.1 p.2 (Std.ExtTreeMap.mem_toList_iff_getElem?_eq_some.1 hp)⟩

instance (s : Store) (o : Overlay) : Decidable (FirstDeleteMisses s o) :=
  decidable_of_iff (∃ x ∈ o.entries.head?, x.2.2 = none ∧ s.get x.1 x.2.1 = none) (by
    constructor
    · rintro ⟨⟨t, k, v⟩, hx, rfl, hnone⟩
      obtain ⟨rest, hes⟩ := List.head?_eq_some_iff.1 hx
      exact ⟨t, k, rest, hes, hnone⟩
    · rintro ⟨t, k, rest, hes, hnone⟩
      exact ⟨(t, k, none), by rw [hes]; rfl, rfl, hnone⟩)

instance (J : JsonLib) (io : Io) (s : Store) (o : Overlay) : Decidable (AllOrNothing J io s o) :=
  inferInstanceAs (Decidable (_ ∨ _))

instance (J : JsonLib) (s : HotSwap) (l : HotSwap.Label) : Decidable (s.Current J l) :=
  match l with
  | .finish i io => inferInstanceAs (Decidable (∀ inv ∈ s.invocation i, ∀ call ∈ inv.commits J s.store,
      (∀ r ∈ inv.reads, r.Holds J inv.caps s.store) ∧ AllOrNothing J io s.store call.overlay))
  | .arrive _ | .getModule _ _ | .load _ _ _ _ | .lock _ | .host _ | .publish _ => isTrue trivial

/-! ## What a call depends on -/

theorem run_sameTables (J : JsonLib) (caps : ModuleCapabilities) {s t : Store} (h : s.engine.tables = t.engine.tables)
    (g : Guest) (call : HostCallContext) : g.run J caps s call = g.run J caps t call := by
  have hget := Store.get_congr h
  have htab := Store.getTable_congr h
  induction g generalizing call with
  | returns status => rfl
  | traps message => rfl
  | abort message => rfl
  | read table key next ih =>
    have hr : hostTableRead J caps s call table key = hostTableRead J caps t call table key := by
      simp only [hostTableRead, hget]
    simp only [Guest.run, hr]
    cases hostTableRead J caps t call table key with
    | none => rfl
    | some p => exact ih p.1 p.2 call
  | write table key value next ih => exact ih _ _
  | delete table key next ih => exact ih _ _
  | scan table start limit next ih =>
    have hr : hostTableScan J caps s call table start limit = hostTableScan J caps t call table start limit := by
      simp only [hostTableScan, scanCommitted, htab]
    simp only [Guest.run, hr]
    cases hostTableScan J caps t call table start limit with
    | none => rfl
    | some p => exact ih p.1 p.2 call
  | emit topic key payload next ih => exact ih _
  | setResult payload next ih => exact ih _

/-- A commit that takes effect as a whole or not at all leaves the tables alone when it fails. -/
theorem AllOrNothing.tables {env : Env} {io : Io} {call : HostCallContext} {s : Store}
    (h : AllOrNothing env.toJsonLib io s call.overlay) (maxLag : Nat) (moduleName : Bytes) :
    (∃ s', commitHostCall env maxLag io moduleName call s = .returned (.ok ()) s') ∨
    ∃ s', s'.engine.tables = s.engine.tables ∧
      (commitHostCall env maxLag io moduleName call s = .threw s' ∨
        ∃ e, commitHostCall env maxLag io moduleName call s = .returned (.error e) s') := by
  rcases h with ⟨hio, hsch, hall⟩ | ⟨htabs, t, k, rest, hes, hnone⟩
  · exact Or.inl ((commitHostCall_ok_iff hio).2 ⟨hsch, hall⟩)
  · refine Or.inr ?_
    have hne : call.overlay.isEmpty = false := by
      by_contra hem
      have ho : call.overlay = ∅ := Std.ExtTreeMap.isEmpty_iff.1 (by simpa using hem)
      have hfind : call.overlay.find t k = some none := mem_entries.1 (by rw [hes]; simp)
      simp [Overlay.find, ho] at hfind
    have hauto : autoCreate env s call.overlay.toList = .returned (.ok ()) s :=
      autoCreate_tablesThere fun p hp => htabs p.1 p.2 (Std.ExtTreeMap.mem_toList_iff_getElem?_eq_some.1 hp)
    simp only [commitHostCall, hne, Bool.false_eq_true, if_false, hauto]
    cases hws : call.overlay.entries.mapM (stageWrite env.toJsonLib s) with
    | none => exact ⟨s, rfl, Or.inl rfl⟩
    | some ws =>
      rw [hes] at hws
      obtain ⟨w, ws, rfl, hw, -⟩ := mapM_eq_some_cons hws
      cases hw
      -- the first write is refused
      have hfail : applyWrite s.engine ⟨.delete, t, { key := k }⟩ (io.clock 0) = none := by
        rw [applyWrite_eq_none]
        intro tbl htbl
        refine ⟨by simp, ?_⟩
        simpa [Store.get, Store.getTable, htbl, MemTable.get] using hnone
      simp only [Store.commit, OriginDB.commit, ne_eq, not_true_eq_false, if_false, reduceCtorEq, applyWrites, hfail]
      refine ⟨_, ?_, Or.inr ⟨_, rfl⟩⟩
      rfl

namespace HotSwap

/-! ## The invariant -/

/-- Given the answers the call was given, it goes the way it went. -/
def Replays (J : JsonLib) (inv : Invocation) : Prop :=
  ∀ t : Store, (∀ r ∈ inv.reads, r.Holds J inv.caps t) →
    inv.start.run J inv.caps t {} = inv.guest.run J inv.caps t inv.call

structure Inv (env : Env) (maxLag : Nat) (moduleName : Bytes) (store : Store) (s : HotSwap) : Prop where
  serial : ∃ t, serial env maxLag moduleName s.committed store = some t ∧ t.engine.tables = s.store.engine.tables
  replays : ∀ th ∈ s.threads, ∀ inv, th.invocation = some inv → Replays env.toJsonLib inv

section
variable {env : Env} {maxLag : Nat} {moduleName : Bytes} {store : Store} {s s' : HotSwap}

theorem serial_append {cs ds : List Committed} {t : Store} :
    HotSwap.serial env maxLag moduleName (cs ++ ds) store = some t ↔
      ∃ u, HotSwap.serial env maxLag moduleName cs store = some u ∧ HotSwap.serial env maxLag moduleName ds u = some t := by
  induction cs generalizing store with
  | nil => simp [HotSwap.serial]
  | cons c cs ih =>
    rw [List.cons_append, HotSwap.serial, HotSwap.serial]
    cases execute env maxLag c.io c.caps moduleName c.reducer {} c.guest store with
    | threw u => simp
    | returned r u => cases hr : r.success <;> simp [hr, ih]

theorem replays_start (J : JsonLib) {inv : Invocation} (h : inv.guest = inv.start) (hc : inv.call = {}) : Replays J inv := by
  intro t _
  rw [h, hc]

theorem Replays.host {J : JsonLib} {inv : Invocation} {st : Store} {guest : Guest} {call : HostCallContext} (h : Replays J inv)
    (hnext : inv.guest.next J inv.caps st inv.call = .inr (guest, call)) :
    Replays J { inv with guest := guest, call := call, reads := inv.reads ++ inv.guest.reads J inv.caps st inv.call } := by
  intro t ht
  have hrun := h t fun r hr => ht r (List.mem_append_left _ hr)
  have hsame : inv.guest.next J inv.caps t inv.call = .inr (guest, call) := by
    rw [← hnext]
    exact next_of_reads fun r hr => ht r (List.mem_append_right _ hr)
  rw [run_eq_next J inv.caps t inv.guest inv.call, hsame] at hrun
  exact hrun

/-- The call alone, on tables that answer it as it was answered. -/
theorem execute_of_replays {inv : Invocation} {io : Io} {st t : Store} {call : HostCallContext} {status : Int32}
    (h : Replays env.toJsonLib inv) (hreads : ∀ r ∈ inv.reads, r.Holds env.toJsonLib inv.caps st)
    (htabs : t.engine.tables = st.engine.tables)
    (hnext : inv.guest.next env.toJsonLib inv.caps st inv.call = .inl (call, .returned status)) (hstatus : ¬ status < 0)
    {st' : Store} (hcommit : commitHostCall env maxLag io moduleName call st = .returned (.ok ()) st') :
    ∃ r t', execute env maxLag io inv.caps moduleName inv.reducer {} inv.start t = .returned r t' ∧ r.success = true ∧
      t'.engine.tables = st'.engine.tables := by
  have hrun : inv.start.run env.toJsonLib inv.caps t {} = (call, .returned status) := by
    rw [run_sameTables env.toJsonLib inv.caps htabs, h st hreads, run_eq_next, hnext]
  have hno : status ≠ errNoHandler := by
    rintro rfl
    exact hstatus (by decide)
  have hsame := commitHostCall_sameTables env maxLag io moduleName call htabs
  rw [hcommit] at hsame
  cases hc : commitHostCall env maxLag io moduleName call t with
  | threw t' =>
    rw [hc] at hsame
    exact hsame.elim
  | returned r t' =>
    rw [hc] at hsame
    obtain ⟨rfl, htabs'⟩ := hsame
    refine ⟨{ success := true, value := some (call.result.elim (.inr status) .inl) }, t', ?_, rfl, htabs'⟩
    simp only [execute, Bool.false_eq_true, if_false, hrun, hno, hstatus, hc]

/-- The threads of a step: one is changed, or one is new. -/
theorem Inv.threads (h : Inv env maxLag moduleName store s) {i : Nat} {th : Thread}
    (hth : ∀ inv, th.invocation = some inv → Replays env.toJsonLib inv) :
    ∀ th' ∈ s.threads.set i th, ∀ inv, th'.invocation = some inv → Replays env.toJsonLib inv := by
  intro th' hmem inv hinv
  rcases List.mem_or_eq_of_mem_set hmem with hmem | rfl
  · exact h.replays th' hmem inv hinv
  · exact hth inv hinv

theorem invocation_setInvocation {th : Thread} {inv inv' inv'' : Invocation} (h : th.invocation = some inv)
    (h' : (th.setInvocation inv').invocation = some inv'') : inv'' = inv' := by
  cases th <;> cases h <;> cases h' <;> rfl

theorem replays_ended (J : JsonLib) {th : Thread} {ok : Bool} {inv : Invocation} (h : (th.ended ok).invocation = some inv) :
    Replays J inv := by
  cases th with
  | init inv₀ hook =>
    cases ok <;> cases hook <;> cases h
    exact replays_start J rfl rfl
  | migrate inv₀ => cases ok <;> cases h
  | _ => cases h

/-- What the end of a call does: it commits and counts, or leaves the tables alone. -/
theorem endCall_spec (maxLag : Nat) (moduleName : Bytes) {inv : Invocation} {io : Io} {r : HostCallContext × GuestEnd} {t st' : Store} {ok committed : Bool}
    (hrep : Replays env.toJsonLib inv) (htabs : t.engine.tables = s.store.engine.tables)
    (hnext : inv.guest.next env.toJsonLib inv.caps s.store inv.call = .inl r)
    (hcur : ∀ call, inv.commits env.toJsonLib s.store = some call →
      (∀ r ∈ inv.reads, r.Holds env.toJsonLib inv.caps s.store) ∧ AllOrNothing env.toJsonLib io s.store call.overlay)
    (h : endCall env maxLag moduleName io inv.reducer s.store r = (st', ok, committed)) :
    ∃ t', serial env maxLag moduleName (if committed then [⟨inv.caps, inv.reducer, inv.start, io⟩] else []) t = some t' ∧
      t'.engine.tables = st'.engine.tables := by
  obtain ⟨call, ended⟩ := r
  cases ended with
  | threw =>
    cases h
    exact ⟨t, rfl, htabs⟩
  | trapped message =>
    cases h
    exact ⟨t, rfl, htabs⟩
  | returned status =>
    simp only [endCall] at h
    split at h
    · cases h
      exact ⟨t, rfl, htabs⟩
    · split at h
      · cases h
        exact ⟨t, rfl, htabs⟩
      · rename_i hstatus
        have hcommits : inv.commits env.toJsonLib s.store = some call := by
          simp only [Invocation.commits, hnext, hstatus, if_false]
        obtain ⟨hreads, hall⟩ := hcur call hcommits
        rcases hall.tables maxLag moduleName with ⟨s₁, hc⟩ | ⟨s₁, hsame, hc | ⟨e, hc⟩⟩
        · rw [hc] at h
          cases h
          obtain ⟨res, t', hexec, hok, htabs'⟩ := execute_of_replays hrep hreads htabs hnext hstatus hc
          exact ⟨t', by simp [HotSwap.serial, hexec, hok], htabs'⟩
        · rw [hc] at h
          cases h
          exact ⟨t, rfl, htabs.trans hsame.symm⟩
        · rw [hc] at h
          cases h
          exact ⟨t, rfl, htabs.trans hsame.symm⟩

theorem Inv.step {l : Label} (h : Inv env maxLag moduleName store s) (hok : s.Current env.toJsonLib l)
    (hstep : HotSwap.step env maxLag moduleName s l = some s') : Inv env maxLag moduleName store s' := by
  cases l with
  | arrive reducer =>
    cases hstep
    refine ⟨h.serial, fun th hth inv hinv => ?_⟩
    rcases List.mem_append.1 hth with hth | hth
    · exact h.replays th hth inv hinv
    · rw [List.mem_singleton.1 hth] at hinv
      cases hinv
  | getModule i guest =>
    simp only [HotSwap.step] at hstep
    split at hstep
    · split at hstep
      · cases hstep
        exact ⟨h.serial, h.threads fun inv hinv => by cases hinv⟩
      · obtain ⟨caps, -, rfl⟩ := Option.map_eq_some_iff.1 hstep
        refine ⟨h.serial, h.threads fun inv hinv => ?_⟩
        cases hinv
        exact replays_start _ rfl rfl
    · cases hstep
  | load caps accepted init migrate =>
    cases hstep
    refine ⟨h.serial, fun th hth inv hinv => ?_⟩
    rcases List.mem_append.1 hth with hth | hth
    · exact h.replays th hth inv hinv
    · rw [List.mem_singleton.1 hth] at hinv
      cases accepted <;> cases hinv
      exact replays_start _ rfl rfl
  | lock i =>
    simp only [HotSwap.step] at hstep
    split at hstep
    · rename_i th inv hth hinv
      split at hstep
      · cases hstep
      · cases hstep
        have hinv' : th.invocation = some inv := by simpa [invocation, hth] using hinv
        refine ⟨h.serial, h.threads fun inv' hi => ?_⟩
        rw [invocation_setInvocation hinv' hi]
        exact h.replays th (List.mem_of_getElem? hth) inv hinv'
    · cases hstep
  | host i =>
    simp only [HotSwap.step] at hstep
    split at hstep
    · rename_i th inv hth hinv
      split at hstep
      · split at hstep
        · cases hstep
        · rename_i hnext
          cases hstep
          have hinv' : th.invocation = some inv := by simpa [invocation, hth] using hinv
          refine ⟨h.serial, h.threads fun inv' hi => ?_⟩
          rw [invocation_setInvocation hinv' hi]
          exact (h.replays th (List.mem_of_getElem? hth) inv hinv').host hnext
      · cases hstep
    · cases hstep
  | finish i io =>
    simp only [HotSwap.step] at hstep
    split at hstep
    · rename_i th inv hth hinv
      split at hstep
      · split at hstep
        · cases hstep
        · rename_i r hnext
          cases hstep
          have hinv' : th.invocation = some inv := by simpa [invocation, hth] using hinv
          obtain ⟨t, hserial, htabs⟩ := h.serial
          obtain ⟨t', hserial', htabs'⟩ := endCall_spec maxLag moduleName
            (h.replays th (List.mem_of_getElem? hth) inv hinv') htabs hnext (hok inv hinv) rfl
          exact ⟨⟨t', serial_append.2 ⟨t, hserial, hserial'⟩, htabs'⟩, h.threads fun inv' hi => replays_ended _ hi⟩
      · cases hstep
    · cases hstep
  | publish i =>
    simp only [HotSwap.step] at hstep
    split at hstep
    · cases hstep
      exact ⟨h.serial, h.threads fun inv hinv => by cases hinv⟩
    · cases hstep

end

/-! ## Without redeployments -/

/-- Nobody redeploys the module, and a commit takes effect as a whole or not at all. -/
def NoRedeploy (J : JsonLib) (s : HotSwap) : Label → Prop
  | .load .. => False
  | .finish i io => ∀ inv, s.invocation i = some inv → ∀ call, inv.commits J s.store = some call →
      AllOrNothing J io s.store call.overlay
  | _ => True

/-- One call runs at a time, and what it has read is still so. -/
structure Alone (J : JsonLib) (inst : Option Nat) (s : HotSwap) : Prop where
  same : s.serving = inst
  client : ∀ th ∈ s.threads, (∃ r, th = .arrived r) ∨ (∃ inv, th = .call inv ∧ inst = some inv.inst) ∨ th = .done
  one : ∀ i j inv inv', s.invocation i = some inv → s.invocation j = some inv' → inv.locked = true → inv'.locked = true → i = j
  current : ∀ i inv, s.invocation i = some inv → ∀ r ∈ inv.reads, inv.locked = true ∧ r.Holds J inv.caps s.store

section
variable {env : Env} {maxLag : Nat} {moduleName : Bytes} {s s' : HotSwap} {inst : Option Nat}

theorem invocation_set {i j : Nat} {th th' : Thread} {inv : Invocation} (hth : s.threads[i]? = some th)
    (h : (s.threads.set i th')[j]?.bind Thread.invocation = some inv) :
    (j = i ∧ th'.invocation = some inv) ∨ (j ≠ i ∧ s.invocation j = some inv) := by
  rw [List.getElem?_set] at h
  split at h
  · rename_i hij
    subst hij
    rw [if_pos (List.getElem?_eq_some_iff.1 hth).1] at h
    exact Or.inl ⟨rfl, h⟩
  · rename_i hij
    exact Or.inr ⟨Ne.symm hij, h⟩

theorem Alone.client_set (h : Alone env.toJsonLib inst s) {i : Nat} {th' : Thread}
    (hth' : (∃ r, th' = .arrived r) ∨ (∃ inv, th' = .call inv ∧ inst = some inv.inst) ∨ th' = .done) :
    ∀ th ∈ s.threads.set i th', (∃ r, th = .arrived r) ∨ (∃ inv, th = .call inv ∧ inst = some inv.inst) ∨ th = .done := by
  intro th hmem
  rcases List.mem_or_eq_of_mem_set hmem with hmem | rfl
  · exact h.client th hmem
  · exact hth'

/-- A thread that runs nothing takes the place of another. -/
theorem Alone.idle (h : Alone env.toJsonLib inst s) {i : Nat} {th th' : Thread} (hth : s.threads[i]? = some th)
    (hth' : (∃ r, th' = .arrived r) ∨ (∃ inv, th' = .call inv ∧ inst = some inv.inst) ∨ th' = .done)
    (hidle : ∀ inv, th'.invocation = some inv → inv.locked = false ∧ inv.reads = []) {st : Store}
    (hst : st = s.store ∨ ∃ inv, th.invocation = some inv ∧ inv.locked = true) {done : List Committed} :
    Alone env.toJsonLib inst { s with store := st, threads := s.threads.set i th', committed := done } := by
  refine ⟨h.same, h.client_set hth', fun j k inv inv' hj hk hl hl' => ?_, fun j inv hj r hr => ?_⟩
  · rcases invocation_set hth hj with ⟨-, hi⟩ | ⟨-, hj⟩
    · rw [(hidle inv hi).1] at hl
      cases hl
    · rcases invocation_set hth hk with ⟨-, hi⟩ | ⟨-, hk⟩
      · rw [(hidle inv' hi).1] at hl'
        cases hl'
      · exact h.one j k inv inv' hj hk hl hl'
  · rcases invocation_set hth hj with ⟨-, hi⟩ | ⟨hne, hj⟩
    · rw [(hidle inv hi).2] at hr
      cases hr
    · obtain ⟨hl, hholds⟩ := h.current j inv hj r hr
      refine ⟨hl, ?_⟩
      rcases hst with rfl | ⟨inv₀, hinv₀, hl₀⟩
      · exact hholds
      · -- the one that ran has gone
        exact absurd (h.one j i inv inv₀ hj (by simpa [invocation, hth] using hinv₀) hl hl₀) hne

/-- Who runs a call is a client of the instance. -/
theorem Alone.calling (h : Alone env.toJsonLib inst s) {th : Thread} (hth : th ∈ s.threads) {inv : Invocation}
    (hinv : th.invocation = some inv) : th = .call inv ∧ inst = some inv.inst := by
  rcases h.client th hth with ⟨r, rfl⟩ | ⟨iv, rfl, hin⟩ | rfl
  · cases hinv
  · cases hinv
    exact ⟨rfl, hin⟩
  · cases hinv

/-- With one instance, `call_mutex` keeps all calls apart. -/
theorem Alone.free (h : Alone env.toJsonLib inst s) {i j : Nat} {inv inv' : Invocation} (hi : s.invocation i = some inv)
    (hbusy : s.busy inv.inst = false) (hj : s.invocation j = some inv') : inv'.locked = false := by
  obtain ⟨_, hth, hinv⟩ := Option.bind_eq_some_iff.1 hi
  obtain ⟨th, hth', hinv'⟩ := Option.bind_eq_some_iff.1 hj
  have hin := (h.calling (List.mem_of_getElem? hth) hinv).2
  have hin' := (h.calling (List.mem_of_getElem? hth') hinv').2
  have heq : inv'.inst = inv.inst := Option.some.inj (hin'.symm.trans hin)
  cases hl : inv'.locked with
  | false => rfl
  | true =>
    have : s.busy inv.inst = true := by
      simp only [busy, List.any_eq_true]
      exact ⟨th, List.mem_of_getElem? hth', by simp [hinv', hl, heq]⟩
    rw [hbusy] at this
    cases this

/-- A request comes in. -/
theorem Alone.arrive (h : Alone env.toJsonLib inst s) (reducer : Bytes) :
    Alone env.toJsonLib inst { s with threads := s.threads ++ [.arrived reducer] } := by
  have hinv : ∀ {j inv}, (s.threads ++ [Thread.arrived reducer])[j]?.bind Thread.invocation = some inv → s.invocation j = some inv := by
    intro j inv hj
    obtain ⟨th, hth, hinv⟩ := Option.bind_eq_some_iff.1 hj
    rw [List.getElem?_append] at hth
    split at hth
    · exact Option.bind_eq_some_iff.2 ⟨th, hth, hinv⟩
    · rw [List.mem_singleton.1 (List.mem_of_getElem? hth)] at hinv
      cases hinv
  refine ⟨h.same, fun th hth => ?_, fun j k inv inv' hj hk => h.one j k inv inv' (hinv hj) (hinv hk),
    fun j inv hj => h.current j inv (hinv hj)⟩
  rcases List.mem_append.1 hth with hth | hth
  · exact h.client th hth
  · exact Or.inl ⟨reducer, List.mem_singleton.1 hth⟩

/-- A call starts or goes on, all others standing still. -/
theorem Alone.set (h : Alone env.toJsonLib inst s) {i : Nat} {th : Thread} {inv inv' : Invocation}
    (hth : s.threads[i]? = some th) (hinv : th.invocation = some inv) (hinst : inv'.inst = inv.inst)
    (hothers : ∀ j iv, j ≠ i → s.invocation j = some iv → iv.locked = false)
    (hreads : ∀ r ∈ inv'.reads, inv'.locked = true ∧ r.Holds env.toJsonLib inv'.caps s.store) :
    Alone env.toJsonLib inst { s with threads := s.threads.set i (th.setInvocation inv') } := by
  obtain ⟨rfl, hin⟩ := h.calling (List.mem_of_getElem? hth) hinv
  refine ⟨h.same, h.client_set (Or.inr (Or.inl ⟨inv', rfl, hinst ▸ hin⟩)), fun j k iv iv' hj hk hl hl' => ?_,
    fun j iv hj r hr => ?_⟩
  · rcases invocation_set hth hj with ⟨rfl, -⟩ | ⟨hne, hj⟩
    · rcases invocation_set hth hk with ⟨rfl, -⟩ | ⟨hne, hk⟩
      · rfl
      · rw [hothers k iv' hne hk] at hl'
        cases hl'
    · rw [hothers j iv hne hj] at hl
      cases hl
  · rcases invocation_set hth hj with ⟨rfl, hi⟩ | ⟨-, hj⟩
    · cases hi
      exact hreads r hr
    · exact h.current j iv hj r hr

/-- Nobody but the call that runs has `call_mutex`. -/
theorem Alone.others (h : Alone env.toJsonLib inst s) {i : Nat} {inv : Invocation} (hi : s.invocation i = some inv)
    (hlocked : inv.locked = true) {j : Nat} {iv : Invocation} (hne : j ≠ i) (hj : s.invocation j = some iv) : iv.locked = false := by
  cases hl : iv.locked with
  | false => rfl
  | true => exact absurd (h.one j i iv inv hj hi hl hlocked) hne

theorem Alone.step {l : Label} (h : Alone env.toJsonLib inst s) (hok : s.NoRedeploy env.toJsonLib l)
    (hstep : HotSwap.step env maxLag moduleName s l = some s') : Alone env.toJsonLib inst s' := by
  cases l with
  | arrive reducer =>
    cases hstep
    exact h.arrive reducer
  | getModule i guest =>
    simp only [HotSwap.step] at hstep
    split at hstep
    · rename_i reducer hth
      split at hstep
      · cases hstep
        exact h.idle hth (Or.inr (Or.inr rfl)) (fun inv hinv => by cases hinv) (Or.inl rfl)
      · rename_i n hserving
        obtain ⟨caps, -, rfl⟩ := Option.map_eq_some_iff.1 hstep
        refine h.idle hth (Or.inr (Or.inl ⟨_, rfl, ?_⟩)) (fun inv hinv => ?_) (Or.inl rfl)
        · rw [← h.same, hserving]
        · cases hinv
          exact ⟨rfl, rfl⟩
    · cases hstep
  | load caps accepted init migrate => exact hok.elim
  | lock i =>
    simp only [HotSwap.step] at hstep
    split at hstep
    · rename_i th inv hth hinv
      split at hstep
      · cases hstep
      · rename_i hfree
        cases hstep
        obtain ⟨hunlocked, hbusy⟩ := not_or.1 hfree
        have hinv' : th.invocation = some inv := by simpa [invocation, hth] using hinv
        refine h.set hth hinv' rfl (fun j iv _ hj => h.free hinv (by simpa using hbusy) hj) fun r hr => ?_
        -- a call that waits for its turn has read nothing
        exact absurd (h.current i inv hinv r hr).1 hunlocked
    · cases hstep
  | host i =>
    simp only [HotSwap.step] at hstep
    split at hstep
    · rename_i th inv hth hinv
      split at hstep
      · rename_i hlocked
        split at hstep
        · cases hstep
        · cases hstep
          have hinv' : th.invocation = some inv := by simpa [invocation, hth] using hinv
          refine h.set hth hinv' rfl (fun j iv hne hj => h.others hinv hlocked hne hj) fun r hr => ⟨hlocked, ?_⟩
          rcases List.mem_append.1 hr with hr | hr
          · exact (h.current i inv hinv r hr).2
          · exact reads_hold hr
      · cases hstep
    · cases hstep
  | finish i io =>
    simp only [HotSwap.step] at hstep
    split at hstep
    · rename_i th inv hth hinv
      split at hstep
      · rename_i hlocked
        split at hstep
        · cases hstep
        · cases hstep
          have hinv' : th.invocation = some inv := by simpa [invocation, hth] using hinv
          obtain ⟨rfl, -⟩ := h.calling (List.mem_of_getElem? hth) hinv'
          exact h.idle hth (Or.inr (Or.inr rfl)) (fun inv hi => by cases hi) (Or.inr ⟨inv, hinv', hlocked⟩)
      · cases hstep
    · cases hstep
  | publish i =>
    simp only [HotSwap.step] at hstep
    split at hstep
    · rename_i n hth
      rcases h.client _ (List.mem_of_getElem? hth) with ⟨r, hr⟩ | ⟨iv, hr, -⟩ | hr <;> cases hr
    · cases hstep

end

/-! ## Whole runs -/

/-- The final tables are those of some order of the committed calls, one after the other. -/
def Serializable (env : Env) (maxLag : Nat) (moduleName : Bytes) (store : Store) (s : HotSwap) : Prop :=
  ∃ order t, order.Perm s.committed ∧ serial env maxLag moduleName order store = some t ∧
    t.engine.tables = s.store.engine.tables

/-- **Hot-swap loses no update** in every run in which what a call has read is still so when it commits. -/
theorem swap_serializable (env : Env) (maxLag : Nat) (moduleName : Bytes) (store : Store) (instances : List ModuleCapabilities)
    (serving : Option Nat) (ls : List Label) (s : HotSwap)
    (hok : Allowed (step env maxLag moduleName) (Current env.toJsonLib)
      { store := store, instances := instances, serving := serving } ls)
    (hrun : run (step env maxLag moduleName) { store := store, instances := instances, serving := serving } ls = some s) :
    Serializable env maxLag moduleName store s := by
  have h0 : Inv env maxLag moduleName store { store := store, instances := instances, serving := serving } :=
    ⟨⟨store, rfl, rfl⟩, by simp⟩
  have hstep : ∀ s l s', Inv env maxLag moduleName store s → s.Current env.toJsonLib l →
      HotSwap.step env maxLag moduleName s l = some s' → Inv env maxLag moduleName store s' := fun _ _ _ h hl hs => h.step hl hs
  obtain ⟨t, hserial, htabs⟩ := (run_invariant (Inv env maxLag moduleName store) hstep h0 hok hrun).serial
  exact ⟨s.committed, t, .refl _, hserial, htabs⟩

/-- `{"a":n}`. -/
def countText (n : Int) : Bytes := str "\x7b\"a\":" ++ Numbers.intText n ++ str "\x7d"

def countRow (n : Int64) : Row := { key := str "k", columns := (∅ : Columns).insert (str "a") (.int64 n) }

def countEnv : Env :=
  { order := .sorted
    toJsonLib := .ofTable
      ([0, 1, 2].flatMap fun n : Int => [(.object [(str "a", .int n)], countText n),
        (rowJson (countRow (Int64.ofInt n)), str "\x7b\"columns\":" ++ countText n ++ str ",\"key\":\"k\"\x7d")])
      (by decide +kernel) }

/-- Row `k` of `t` counts from 0. -/
def countStore : Store := { engine := { tables := oneRow (.int64 0) } }

def counted (s : Store) : Option Value := (s.get (str "t") (str "k")).bind fun r => r.columns[str "a"]?

/-- A reducer that adds one. -/
def increment : Guest :=
  .read (str "t") (str "k") fun _ text =>
    .write (str "t") (str "k") (if text = countText 0 then countText 1 else countText 2) fun _ => .returns 0

/-- A call of `increment` on the first instance has read its row; a second instance is loaded and published. -/
def swapped : List Label :=
  [.arrive (str "inc"), .getModule 0 increment, .lock 0, .host 0,
   .load {} true (.returns errNoHandler) (.returns errNoHandler), .lock 1, .finish 1 {}, .lock 1, .finish 1 {}, .publish 1,
   .arrive (str "inc"), .getModule 2 increment]

/-- The call on the new instance begins when the old one is through. -/
def oldFirst : List Label := swapped ++ [.host 0, .finish 0 {}, .lock 2, .host 2, .host 2, .finish 2 {}]

theorem swap_serializable_oldFirst : ∃ s,
    run (step countEnv 100000 (str "m")) { store := countStore, instances := [{}], serving := some 0 } oldFirst = some s ∧
      s.committed.length = 2 ∧ Serializable countEnv 100000 (str "m") countStore s := by
  have hlen : ((run (step countEnv 100000 (str "m")) { store := countStore, instances := [{}], serving := some 0 }
      oldFirst).map fun s => s.committed.length) = some 2 := by
    decide +kernel
  obtain ⟨s, hrun, hlen⟩ := Option.map_eq_some_iff.1 hlen
  exact ⟨s, hrun, hlen, swap_serializable countEnv 100000 (str "m") countStore [{}] (some 0) oldFirst s (by decide +kernel) hrun⟩

/-- The call on the new instance runs while the old one is still to write. -/
def overlapped : List Label := swapped ++ [.lock 2, .host 2, .host 2, .finish 2 {}, .host 0, .finish 0 {}]

/-- Both calls commit, and the row has been counted up once. -/
theorem swap_update_lost : ∃ s,
    run (step countEnv 100000 (str "m")) { store := countStore, instances := [{}], serving := some 0 } overlapped = some s ∧
      s.committed.length = 2 ∧ ¬ Serializable countEnv 100000 (str "m") countStore s := by
  -- in either order the count comes to two
  have hfacts : ((run (step countEnv 100000 (str "m")) { store := countStore, instances := [{}], serving := some 0 }
      overlapped).map fun s => (s.committed.length, counted s.store,
        s.committed.permutations'.map fun order => (serial countEnv 100000 (str "m") order countStore).map counted)) =
      some (2, some (.int64 1), [some (some (.int64 2)), some (some (.int64 2))]) := by
    decide +kernel
  obtain ⟨s, hrun, hs⟩ := Option.map_eq_some_iff.1 hfacts
  simp only [Prod.mk.injEq] at hs
  obtain ⟨hlen, hone, htwo⟩ := hs
  refine ⟨s, hrun, hlen, ?_⟩
  rintro ⟨order, t, hperm, hserial, htabs⟩
  have hmem := List.mem_map_of_mem (f := fun order => (serial countEnv 100000 (str "m") order countStore).map counted)
    (List.mem_permutations'.2 hperm)
  rw [htwo, hserial] at hmem
  have hcount : counted t = some (.int64 2) := by simpa using hmem
  have hsame : counted t = counted s.store := by
    rw [counted, counted, Store.get_congr htabs]
  rw [hsame, hone] at hcount
  exact absurd hcount (by decide +kernel)

/-- Without redeployments it is always so: the one `call_mutex` keeps the calls apart. -/
theorem calls_serializable (env : Env) (maxLag : Nat) (moduleName : Bytes) (store : Store) (instances : List ModuleCapabilities)
    (serving : Option Nat) (ls : List Label) (s : HotSwap)
    (hok : Allowed (step env maxLag moduleName) (NoRedeploy env.toJsonLib)
      { store := store, instances := instances, serving := serving } ls)
    (hrun : run (step env maxLag moduleName) { store := store, instances := instances, serving := serving } ls = some s) :
    Serializable env maxLag moduleName store s := by
  have h0 : Inv env maxLag moduleName store { store := store, instances := instances, serving := serving } ∧
      Alone env.toJsonLib serving { store := store, instances := instances, serving := serving } :=
    ⟨⟨⟨store, rfl, rfl⟩, by simp⟩, rfl, by simp, by simp [invocation], by simp [invocation]⟩
  have hstep : ∀ s l s', Inv env maxLag moduleName store s ∧ Alone env.toJsonLib serving s → s.NoRedeploy env.toJsonLib l →
      HotSwap.step env maxLag moduleName s l = some s' → Inv env maxLag moduleName store s' ∧ Alone env.toJsonLib serving s' := by
    rintro s l s' ⟨h, ha⟩ hl hs
    refine ⟨h.step ?_ hs, ha.step hl hs⟩
    cases l with
    | finish i io => exact fun inv hi call hc => ⟨fun r hr => (ha.current i inv hi r hr).2, hl inv hi call hc⟩
    | _ => trivial
  obtain ⟨t, hserial, htabs⟩ := (run_invariant _ hstep h0 hok hrun).1.serial
  exact ⟨s.committed, t, .refl _, hserial, htabs⟩

end HotSwap

end Wasm

end OriginDB
