import OriginDB.Wasm.StagedWrites
/-!
# Capability confinement (`host_functions.cpp:104-326, 549-615`)

`TableAllowed` is asked by each of the four host functions that look at a table or stage a write, before
anything else is done with the name, and `CommitHostCall` touches nothing but the tables of the overlay. So a
module that is restricted to some tables neither changes the others nor learns anything from them
(`capabilities_confine`).

Others may commit while the module runs: `runAmong` gives each host function the tables it finds.
-/
namespace OriginDB

open JsonDoc ByteCodec Lists

namespace Wasm

/-- What a host function answered (nothing, if it threw), and what was staged then. -/
structure Answered where
  answer : Option (Int32 × Bytes)
  overlay : Overlay

/-- The call with what it was answered, where `σ i` is the storage engine after `i` host functions. -/
def Guest.runAmong (J : JsonLib) (caps : ModuleCapabilities) (σ : Nat → Store) :
    Nat → Guest → HostCallContext → List Answered × HostCallContext × GuestEnd
  | _, .returns status, call => ([], call, .returned status)
  | _, .traps message, call => ([], call, .trapped message)
  | _, .abort message, call => ([], { call with abortMsg := message }, .trapped (str "aborted: " ++ message))
  | i, .read table key next, call =>
    match hostTableRead J caps (σ i) call table key with
    | none => ([⟨none, call.overlay⟩], call, .threw)
    | some (code, text) =>
      let r := (next code text).runAmong J caps σ (i + 1) call
      (⟨some (code, text), call.overlay⟩ :: r.1, r.2)
  | i, .write table key value next, call =>
    let w := hostTableWrite J caps call table key value
    let r := (next w.1).runAmong J caps σ (i + 1) w.2
    (⟨some (w.1, []), w.2.overlay⟩ :: r.1, r.2)
  | i, .delete table key next, call =>
    let d := hostTableDelete caps call table key
    let r := (next d.1).runAmong J caps σ (i + 1) d.2
    (⟨some (d.1, []), d.2.overlay⟩ :: r.1, r.2)
  | i, .scan table start limit next, call =>
    match hostTableScan J caps (σ i) call table start limit with
    | none => ([⟨none, call.overlay⟩], call, .threw)
    | some (code, text) =>
      let r := (next code text).runAmong J caps σ (i + 1) call
      (⟨some (code, text), call.overlay⟩ :: r.1, r.2)
  | i, .emit topic key payload next, call =>
    next.runAmong J caps σ (i + 1) { call with events := call.events ++ [⟨topic, key, payload⟩] }
  | i, .setResult payload next, call => next.runAmong J caps σ (i + 1) { call with result := some payload }

section
variable {J : JsonLib} {caps : ModuleCapabilities} {call : HostCallContext}

/-- With nobody else at the tables it is the run `Execute` is modelled with. -/
theorem Guest.runAmong_const (s : Store) (guest : Guest) (i : Nat) (call : HostCallContext) :
    (guest.runAmong J caps (fun _ => s) i call).2 = guest.run J caps s call := by
  induction guest generalizing i call with
  | returns status => rfl
  | traps message => rfl
  | abort message => rfl
  | read table key next ih =>
    rw [runAmong, run]
    cases hostTableRead J caps s call table key with
    | none => rfl
    | some r => exact ih r.1 r.2 (i + 1) call
  | write table key value next ih => exact ih _ (i + 1) _
  | delete table key next ih => exact ih _ (i + 1) _
  | scan table start limit next ih =>
    rw [runAmong, run]
    cases hostTableScan J caps s call table start limit with
    | none => rfl
    | some r => exact ih r.1 r.2 (i + 1) call
  | emit topic key payload next ih => exact ih (i + 1) _
  | setResult payload next ih => exact ih (i + 1) _

/-! ## What a call can stage -/

/-- Only tables the module may write have something staged. -/
def Permitted (caps : ModuleCapabilities) (o : Overlay) : Prop :=
  ∀ t : Bytes, o[t]?.isSome = true → caps.readOnly = false ∧ tableAllowed caps t = true

theorem Permitted.stage {o : Overlay} (h : Permitted caps o) {table : Bytes}
    (hok : ¬ (caps.readOnly = true ∨ tableAllowed caps table = false)) (key : Bytes) (v : Option Json) :
    Permitted caps (o.stage table key v) := by
  intro t ht
  rw [Overlay.stage, OrdMap.getElem?_insert] at ht
  split at ht
  · subst t
    simpa using hok
  · exact h t ht

theorem Permitted.write (h : Permitted caps call.overlay) (table key value : Bytes) :
    Permitted caps (hostTableWrite J caps call table key value).2.overlay := by
  unfold hostTableWrite
  split
  · exact h
  · rename_i hok
    split
    · exact h.stage hok key _
    · exact h

theorem Permitted.delete (h : Permitted caps call.overlay) (table key : Bytes) :
    Permitted caps (hostTableDelete caps call table key).2.overlay := by
  unfold hostTableDelete
  split
  · exact h
  · rename_i hok
    exact h.stage hok key none

/-- **A run stages nothing it may not.** -/
theorem Permitted.run (σ : Nat → Store) (guest : Guest) (i : Nat) (h : Permitted caps call.overlay) :
    Permitted caps (guest.runAmong J caps σ i call).2.1.overlay := by
  induction guest generalizing i call with
  | returns status => exact h
  | traps message => exact h
  | abort message => exact h
  | read table key next ih =>
    rw [Guest.runAmong]
    cases hostTableRead J caps (σ i) call table key with
    | none => exact h
    | some r => exact ih r.1 r.2 (i + 1) h
  | write table key value next ih => exact ih _ (i + 1) (h.write table key value)
  | delete table key next ih => exact ih _ (i + 1) (h.delete table key)
  | scan table start limit next ih =>
    rw [Guest.runAmong]
    cases hostTableScan J caps (σ i) call table start limit with
    | none => exact h
    | some r => exact ih r.1 r.2 (i + 1) h
  | emit topic key payload next ih => exact ih (i + 1) h
  | setResult payload next ih => exact ih (i + 1) h

/-! ## What a commit can touch -/

theorem createTable_untouched (env : Env) (s : Store) (schema : TableSchema) {t : Bytes} (ht : schema.name ≠ t) :
    (s.createTable env schema).store.getTable t = s.getTable t := by
  have hinsert : ∀ s' : Store, s'.engine.tables = s.engine.tables.insert schema.name { schema := schema } →
      s'.getTable t = s.getTable t := by
    intro s' htabs
    rw [Store.getTable, Store.getTable, htabs, OrdMap.getElem?_insert, if_neg ht]
  rcases createTable_cases env s schema with ⟨-, hc⟩ | ⟨-, s', -, htabs, ⟨-, hc⟩ | ⟨-, hc⟩⟩
  · rw [hc]
    rfl
  · rw [hc]
    exact hinsert s' htabs
  · rw [hc]
    exact hinsert s' htabs

theorem autoCreate_untouched (env : Env) (s : Store) {l : List (Bytes × StrMap (Option Json))} {t : Bytes}
    (ht : t ∉ l.map Prod.fst) : (autoCreate env s l).store.getTable t = s.getTable t := by
  induction l generalizing s with
  | nil => rfl
  | cons p rest ih =>
    obtain ⟨table, writes⟩ := p
    rw [List.map_cons, List.mem_cons, not_or] at ht
    rw [autoCreate]
    split
    · exact ih s ht.2
    · split
      · exact ih s ht.2
      · rename_i v hv
        have hcreate := createTable_untouched env s (schemaFromJson table v) (Ne.symm ht.1)
        split
        · rename_i s' hc
          rw [hc] at hcreate
          exact hcreate
        · rename_i created s' hc
          rw [hc] at hcreate
          split
          · exact hcreate
          · exact (ih s' ht.2).trans hcreate

theorem Store.commit_untouched (env : Env) (maxLag : Nat) (io : Io) (s : Store) {writes : List WriteOperation} {t : Bytes}
    (h : ∀ w ∈ writes, w.tableName ≠ t) : (s.commit env maxLag io writes).store.getTable t = s.getTable t := by
  let txn : Txn := { timestamp := s.nextTimestamp + 1 - 1, writeSet := writes }
  have hall : ((OriginDB.commit env true io.clock s.engine txn).engine s.engine).tables[t]? = s.engine.tables[t]? :=
    OriginDB.commit_untouched env true io.clock s.engine h
  unfold Store.commit
  simp only
  split <;> rename_i hc <;> rw [hc] at hall
  · rfl
  · rfl
  · exact hall
  · exact hall
  · split
    · exact hall
    · exact hall

theorem tableName_stageWrite {s : Store} {x : Bytes × Bytes × Option Json} {w : WriteOperation} (h : stageWrite J s x = some w) :
    w.tableName = x.1 := by
  obtain ⟨table, key, v⟩ := x
  cases v with
  | none =>
    cases h
    rfl
  | some v =>
    obtain ⟨row, -, hw⟩ := Option.map_eq_some_iff.1 h
    split at hw
    · rw [← hw]
    · rw [← hw]

/-- **`CommitHostCall` leaves a table alone** that nothing is staged for. -/
theorem commitHostCall_untouched (env : Env) (maxLag : Nat) (io : Io) (moduleName : Bytes) (call : HostCallContext) (s : Store)
    {t : Bytes} (ht : call.overlay[t]? = none) : (commitHostCall env maxLag io moduleName call s).store.getTable t = s.getTable t := by
  have hnot : t ∉ call.overlay.toList.map Prod.fst := by
    intro hmem
    obtain ⟨p, hp, rfl⟩ := List.mem_map.1 hmem
    rw [Std.ExtTreeMap.mem_toList_iff_getElem?_eq_some.1 hp] at ht
    cases ht
  unfold commitHostCall
  simp only
  split
  · rfl
  · have hcreate := autoCreate_untouched env s hnot
    split <;> rename_i hc <;> rw [hc] at hcreate
    · exact hcreate
    · exact hcreate
    · rename_i s₁
      split
      · exact hcreate
      · rename_i writes hw
        have hwrites : ∀ w ∈ writes, w.tableName ≠ t := by
          intro w hmem hname
          obtain ⟨⟨table, key, v⟩, hx, hsx⟩ := (mem_of_forall₂ (forall₂_of_mapM hw)).2 w hmem
          have htable : table = t := (tableName_stageWrite hsx).symm.trans hname
          have hfind := mem_entries.1 hx
          rw [htable, Overlay.find, ht] at hfind
          cases hfind
        have hcommit := Store.commit_untouched env maxLag io s₁ hwrites
        split <;> rename_i hc <;> rw [hc] at hcommit
        · exact hcommit.trans hcreate
        · exact hcommit.trans hcreate
        · exact hcommit.trans hcreate

/-! ## What a call can learn -/

section Congr
variable {s s' : Store} {table : Bytes}

theorem hostTableRead_congr (h : tableAllowed caps table = true → s.getTable table = s'.getTable table) (key : Bytes) :
    hostTableRead J caps s call table key = hostTableRead J caps s' call table key := by
  unfold hostTableRead
  cases hallowed : tableAllowed caps table with
  | false => rfl
  | true =>
    have hget : s.get table key = s'.get table key := by rw [Store.get, Store.get, h hallowed]
    rw [hget]

theorem hostTableScan_congr (h : tableAllowed caps table = true → s.getTable table = s'.getTable table) (start : Bytes)
    (limit : Int32) : hostTableScan J caps s call table start limit = hostTableScan J caps s' call table start limit := by
  unfold hostTableScan
  cases hallowed : tableAllowed caps table with
  | false => rfl
  | true =>
    have hrows : scanCommitted J s table start = scanCommitted J s' table start := by
      rw [scanCommitted, scanCommitted, h hallowed]
    rw [hrows]

end Congr

/-- **The call is the same** against storage engines that agree on the allowed tables. -/
theorem Guest.runAmong_congr {σ σ' : Nat → Store}
    (h : ∀ i t, tableAllowed caps t = true → (σ i).getTable t = (σ' i).getTable t) (guest : Guest) (i : Nat)
    (call : HostCallContext) : guest.runAmong J caps σ i call = guest.runAmong J caps σ' i call := by
  induction guest generalizing i call with
  | returns status => rfl
  | traps message => rfl
  | abort message => rfl
  | read table key next ih =>
    rw [runAmong, runAmong, hostTableRead_congr (h i table)]
    cases hostTableRead J caps (σ' i) call table key with
    | none => rfl
    | some r =>
      simp only
      rw [ih r.1 r.2 (i + 1) call]
  | write table key value next ih =>
    rw [runAmong, runAmong, ih]
  | delete table key next ih =>
    rw [runAmong, runAmong, ih]
  | scan table start limit next ih =>
    rw [runAmong, runAmong, hostTableScan_congr (h i table)]
    cases hostTableScan J caps (σ' i) call table start limit with
    | none => rfl
    | some r =>
      simp only
      rw [ih r.1 r.2 (i + 1) call]
  | emit topic key payload next ih =>
    rw [runAmong, runAmong]
    exact ih (i + 1) _
  | setResult payload next ih =>
    rw [runAmong, runAmong]
    exact ih (i + 1) _

end

theorem tableAllowed_iff {caps : ModuleCapabilities} (hA : caps.allowedTables ≠ []) (t : Bytes) :
    tableAllowed caps t = true ↔ t ∈ caps.allowedTables := by
  simp [tableAllowed, hA]

/-- **A module is confined to its capabilities**: its commit changes no table it was not given, and none at all if
it is read-only; and its call is answered and stages the same whatever the other tables hold. -/
theorem capabilities_confine (env : Env) (maxLag : Nat) (io : Io) (moduleName : Bytes) (caps : ModuleCapabilities)
    (hA : caps.allowedTables ≠ []) (guest : Guest) (σ : Nat → Store) (s : Store) :
    (∀ t, t ∉ caps.allowedTables ∨ caps.readOnly = true →
      (commitHostCall env maxLag io moduleName (guest.runAmong env.toJsonLib caps σ 0 {}).2.1 s).store.getTable t =
        s.getTable t) ∧
    ∀ σ' : Nat → Store, (∀ i, ∀ t ∈ caps.allowedTables, (σ i).getTable t = (σ' i).getTable t) →
      guest.runAmong env.toJsonLib caps σ 0 {} = guest.runAmong env.toJsonLib caps σ' 0 {} := by
  constructor
  · intro t ht
    apply commitHostCall_untouched
    have hstart : Permitted caps ({} : HostCallContext).overlay := fun u hu => by simp at hu
    have hrun := hstart.run (J := env.toJsonLib) σ guest 0
    cases hsome : (guest.runAmong env.toJsonLib caps σ 0 {}).2.1.overlay[t]? with
    | none => rfl
    | some writes =>
      obtain ⟨hro, hallowed⟩ := hrun t (by rw [hsome]; rfl)
      rcases ht with ht | ht
      · exact absurd ((tableAllowed_iff hA t).1 hallowed) ht
      · rw [hro] at ht
        cases ht
  · intro σ' h
    exact Guest.runAmong_congr (fun i t ht => h i t ((tableAllowed_iff hA t).1 ht)) guest 0 {}

/-- A module given `t` writes to `u` and to `t`. -/
def writesBoth : Guest := .write (str "u") (str "k") five fun _ => .write (str "t") (str "k") five fun _ => .returns 0

theorem capabilities_confine_writesBoth :
    let call := (writesBoth.runAmong fiveEnv.toJsonLib { allowedTables := [str "t"] } (fun _ => { engine := emptyTable }) 0 {}).2.1
    let s' := (commitHostCall fiveEnv 100000 {} (str "m") call { engine := emptyTable }).store
    (s'.get (str "t") (str "k")).isSome = true ∧ s'.getTable (str "u") = none :=
  ⟨by decide, (capabilities_confine fiveEnv 100000 {} (str "m") { allowedTables := [str "t"] } (by decide) writesBoth
    (fun _ => { engine := emptyTable }) { engine := emptyTable }).1 (str "u") (Or.inl (by decide))⟩

end Wasm

end OriginDB
