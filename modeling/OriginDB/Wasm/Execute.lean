import OriginDB.Lib.Numbers
import OriginDB.Storage.WriteSets
import OriginDB.Wasm.HostCalls
/-!
# Committing a reducer call (`CommitHostCall`, `WasmEngine::Impl::Execute`)

`host_functions.cpp:549-615` and `wasm_engine.cpp:291-357`, with nobody else at the storage engine. The
overlay becomes a write set in the order of tables and keys, after the tables that are missing have been
created. A staged delete is committed as it is, although `Commit` refuses to delete what is not there:
such a call fails (`staged_commit_iff`), and unless it fails at its very first write and had no table
to create, it leaves part of what it staged behind (`failed_call_iff`).
-/
namespace OriginDB

open JsonDoc ByteCodec

namespace Wasm

/-! ## `CommitHostCall` -/

/-- The staged writes in the order of the two maps. -/
def Overlay.entries (o : Overlay) : List (Bytes × Bytes × Option Json) :=
  o.toList.flatMap fun p => p.2.toList.map fun q => (p.1, q.1, q.2)

/-- The first staged write of a table that is no delete. -/
def firstWrite (writes : StrMap (Option Json)) : Option Json := writes.toList.findSome? Prod.snd

/-- The loop that creates missing tables (host_functions.cpp:558-570). -/
def autoCreate (env : Env) : Store → List (Bytes × StrMap (Option Json)) → Called (Except Bytes Unit)
  | s, [] => .returned (.ok ()) s
  | s, (table, writes) :: rest =>
    if (s.getTable table).isSome then autoCreate env s rest
    else match firstWrite writes with
      | none => autoCreate env s rest
      | some v =>
        match s.createTable env (schemaFromJson table v) with
        | .threw s => .threw s
        | .returned created s =>
          if created = false ∧ (s.getTable table).isNone then
            .returned (.error (str "failed to auto-create table: " ++ table)) s
          else autoCreate env s rest

/-- The write an entry is staged as (host_functions.cpp:580-588); `none` is an exception of `JsonToRow`. -/
def stageWrite (J : JsonLib) (s : Store) : Bytes × Bytes × Option Json → Option WriteOperation
  | (table, key, none) => some ⟨.delete, table, { key := key }⟩
  | (table, key, some v) => (jsonToRow J key v).map fun row =>
      if (s.get table key).isSome then ⟨.update, table, { row with key := key }⟩ else ⟨.insert, table, row⟩

/-- A staged event as it is published (host_functions.cpp:602-612). -/
def customEvent (moduleName : Bytes) (now : UInt64) (ev : StagedEvent) : ChangefeedEvent :=
  { table := ev.topic, operation := str "EVENT", key := ev.key, newValue := ev.payload
    transactionId := str "wasm-" ++ moduleName, timestamp := now }

section
variable (env : Env) (maxLag : Nat) (io : Io)

/-- `CommitHostCall` (host_functions.cpp:549). -/
def commitHostCall (moduleName : Bytes) (call : HostCallContext) (s : Store) : Called (Except Bytes Unit) :=
  let publish := fun (s : Store) =>
    s.publishAll maxLag (io.clock 0) (call.events.map (customEvent moduleName (io.clock 0)))
  if call.overlay.isEmpty then .returned (.ok ()) (publish s)
  else match autoCreate env s call.overlay.toList with
    | .threw s => .threw s
    | .returned (.error e) s => .returned (.error e) s
    | .returned (.ok _) s =>
      match call.overlay.entries.mapM (stageWrite env.toJsonLib s) with
      | none => .threw s
      | some writes =>
        match s.commit env maxLag io writes with
        | .threw s => .threw s
        | .returned false s => .returned (.error (str "transaction commit failed")) s
        | .returned true s => .returned (.ok ()) (publish s)

/-! ## `Execute` -/

/-- `WasmResult`: success, the error, and the one value a call returns. -/
structure WasmResult where
  success : Bool
  error : Bytes := []
  value : Option (Bytes ⊕ Int32) := none
deriving DecidableEq

/-- `IsReservedName` (wasm_engine.cpp:33). -/
def isReservedName (name : Bytes) : Bool := (str "__").isPrefixOf name

/-- What the engine finds when a call comes in: is it shutting down, and does the module run? -/
structure Entry where
  shutdown : Bool := false
  instantiation : Except Bytes Unit := .ok ()

/-- `WasmEngine::Impl::Execute` (wasm_engine.cpp:291). -/
def execute (caps : ModuleCapabilities) (moduleName reducer : Bytes) (entry : Entry) (guest : Guest) (s : Store) :
    Called WasmResult :=
  if entry.shutdown then .returned { success := false, error := str "engine shutting down" } s
  else match entry.instantiation with
    | .error e => .returned { success := false, error := str "re-instantiation failed: " ++ e } s
    | .ok _ =>
      match guest.run env.toJsonLib caps s {} with
      | (_, .threw) => .threw s
      | (call, .trapped message) =>
        .returned { success := false
                    error := if call.abortMsg ≠ [] then str "aborted: " ++ call.abortMsg
                      else if message = [] then str "execution failed" else message } s
      | (call, .returned status) =>
        if status = errNoHandler then
          if isReservedName reducer then .returned { success := true } s
          else .returned { success := false, error := str "unknown reducer: " ++ reducer } s
        else if status < 0 then
          let detail := call.result.getD []
          .returned { success := false
                      error := str "reducer returned error " ++ Numbers.intText status.toInt ++
                        (if detail = [] then [] else str ": " ++ detail) } s
        else match commitHostCall env maxLag io moduleName call s with
          | .threw s => .threw s
          | .returned (.error e) s => .returned { success := false, error := str "commit failed: " ++ e } s
          | .returned (.ok _) s => .returned { success := true, value := some (call.result.elim (.inr status) .inl) } s

end

/-! ## The tables a call creates -/

section Create

/-- A table that is there is left alone; one that is not is put in place, and the record of it printed. -/
theorem createTable_cases (env : Env) (s : Store) (schema : TableSchema) :
    ((s.getTable schema.name).isSome = true ∧ s.createTable env schema = .returned false s) ∨
    (s.getTable schema.name = none ∧ ∃ s', s'.feed = s.feed ∧
      s'.engine.tables = s.engine.tables.insert schema.name { schema := schema } ∧
      ((serializeSchema env.toJsonLib schema = none ∧ s.createTable env schema = .threw s') ∨
       ((serializeSchema env.toJsonLib schema).isSome = true ∧ s.createTable env schema = .returned true s'))) := by
  simp only [Store.createTable, OriginDB.createTable, Store.getTable]
  cases ht : s.engine.tables[schema.name]? with
  | some t => exact Or.inl ⟨rfl, rfl⟩
  | none =>
    refine Or.inr ⟨rfl, ?_⟩
    simp only [Option.isSome_none, Bool.false_eq_true, if_false]
    cases serializeSchema env.toJsonLib schema with
    | none =>
      refine ⟨_, ?_, ?_, Or.inl ⟨rfl, rfl⟩⟩
      · rfl
      · rfl
    | some data =>
      refine ⟨_, ?_, ?_, Or.inr ⟨rfl, rfl⟩⟩
      · rfl
      · rfl

/-- The schemas of the tables to be created can be printed. -/
def SchemasPrint (J : JsonLib) (s : Store) (l : List (Bytes × StrMap (Option Json))) : Prop :=
  ∀ p ∈ l, s.getTable p.1 = none → ∀ v, firstWrite p.2 = some v → (serializeSchema J (schemaFromJson p.1 v)).isSome = true

/-- `s'` is `s` with the missing tables created. -/
structure Created (l : List (Bytes × StrMap (Option Json))) (s s' : Store) : Prop where
  feed : s'.feed = s.feed
  kept : ∀ n t, s.getTable n = some t → s'.getTable n = some t
  missing : ∀ n, s.getTable n = none →
    s'.getTable n = ((l.lookup n).bind firstWrite).map fun v => { schema := schemaFromJson n v }

theorem lookup_eq_none_of_notMem {l : List (Bytes × StrMap (Option Json))} {n : Bytes} (h : n ∉ l.map Prod.fst) :
    l.lookup n = none := by
  rw [List.lookup_eq_none_iff]
  intro p hp
  simp only [bne_iff_ne, ne_eq]
  rintro rfl
  exact h (List.mem_map.2 ⟨p, hp, rfl⟩)

section Rest
variable {J : JsonLib} {table : Bytes} {writes : StrMap (Option Json)} {rest : List (Bytes × StrMap (Option Json))}
  {s s₁ s' : Store} {v : Json}

/-- A table that is there, or has no write, is passed over. -/
theorem schemasPrint_skip (hw : s.getTable table = none → firstWrite writes = none) :
    SchemasPrint J s ((table, writes) :: rest) ↔ SchemasPrint J s rest := by
  constructor
  · exact fun h q hq => h q (by simp [hq])
  · intro h q hq hn v hv
    rcases List.mem_cons.1 hq with rfl | hq
    · rw [hw hn] at hv
      cases hv
    · exact h q hq hn v hv

theorem Created.skip (hnot : table ∉ rest.map Prod.fst) (hw : s.getTable table = none → firstWrite writes = none)
    (h : Created rest s s') : Created ((table, writes) :: rest) s s' := by
  refine ⟨h.feed, h.kept, fun n hn => ?_⟩
  rw [h.missing n hn, List.lookup_cons]
  by_cases hnt : n = table
  · subst hnt
    rw [lookup_eq_none_of_notMem hnot]
    simp [hw hn]
  · rw [beq_eq_false_iff_ne.2 hnt]

theorem schemasPrint_cons (hnot : table ∉ rest.map Prod.fst) (hf : firstWrite writes = some v)
    (hprints : (serializeSchema J (schemaFromJson table v)).isSome = true)
    (hget : ∀ n, s₁.getTable n = if table = n then some { schema := schemaFromJson table v } else s.getTable n) :
    SchemasPrint J s ((table, writes) :: rest) ↔ SchemasPrint J s₁ rest := by
  constructor
  · intro h q hq hn
    rw [hget] at hn
    split at hn
    · cases hn
    · exact h q (by simp [hq]) hn
  · intro h q hq hn u hu
    rcases List.mem_cons.1 hq with rfl | hq
    · rw [hf] at hu
      cases hu
      exact hprints
    · have hne : table ≠ q.1 := fun he => hnot (List.mem_map.2 ⟨q, hq, he.symm⟩)
      exact h q hq (by rw [hget, if_neg hne]; exact hn) u hu

theorem Created.cons (hf : firstWrite writes = some v) (ht : s.getTable table = none) (hfeed : s₁.feed = s.feed)
    (hget : ∀ n, s₁.getTable n = if table = n then some { schema := schemaFromJson table v } else s.getTable n)
    (h : Created rest s₁ s') : Created ((table, writes) :: rest) s s' := by
  refine ⟨h.feed.trans hfeed, fun n t hn => h.kept n t ?_, fun n hn => ?_⟩
  · rw [hget, if_neg]
    · exact hn
    · rintro rfl
      rw [ht] at hn
      cases hn
  · rw [List.lookup_cons]
    by_cases hnt : n = table
    · subst hnt
      rw [h.kept n _ (by rw [hget, if_pos rfl])]
      simp [hf]
    · rw [h.missing n (by rw [hget, if_neg (Ne.symm hnt)]; exact hn), beq_eq_false_iff_ne.2 hnt]

end Rest

/-- **Creating the missing tables** goes well exactly when their schemas can be printed. -/
theorem autoCreate_spec (env : Env) {l : List (Bytes × StrMap (Option Json))} (hd : OrdMap.Distinct l) (s : Store) :
    (¬ SchemasPrint env.toJsonLib s l ∧ ∃ s', autoCreate env s l = .threw s') ∨
    (SchemasPrint env.toJsonLib s l ∧ ∃ s', autoCreate env s l = .returned (.ok ()) s' ∧ Created l s s') := by
  induction l generalizing s with
  | nil =>
    refine Or.inr ⟨by simp [SchemasPrint], s, rfl, rfl, fun _ _ h => h, ?_⟩
    intro n hn
    rw [hn]
    rfl
  | cons p rest ih =>
    obtain ⟨table, writes⟩ := p
    obtain ⟨hnot, hd⟩ := List.nodup_cons.1 hd
    have hskip : (s.getTable table = none → firstWrite writes = none) →
        autoCreate env s ((table, writes) :: rest) = autoCreate env s rest →
        (¬ SchemasPrint env.toJsonLib s ((table, writes) :: rest) ∧ ∃ s', autoCreate env s ((table, writes) :: rest) = .threw s') ∨
        (SchemasPrint env.toJsonLib s ((table, writes) :: rest) ∧ ∃ s', autoCreate env s ((table, writes) :: rest) =
          .returned (.ok ()) s' ∧ Created ((table, writes) :: rest) s s') := by
      intro hw heq
      rw [schemasPrint_skip hw, heq]
      rcases ih hd s with ⟨hno, hex⟩ | ⟨hyes, s', hr, hc⟩
      · exact Or.inl ⟨hno, hex⟩
      · exact Or.inr ⟨hyes, s', hr, hc.skip hnot hw⟩
    cases ht : s.getTable table with
    | some t => exact hskip (by simp [ht]) (by rw [autoCreate, ht]; rfl)
    | none =>
      cases hf : firstWrite writes with
      | none => exact hskip (fun _ => hf) (by rw [autoCreate, ht, hf]; rfl)
      | some v =>
        have hname : (schemaFromJson table v).name = table := rfl
        rcases createTable_cases env s (schemaFromJson table v) with ⟨hthere, -⟩ |
          ⟨-, s₁, hfeed, htabs, ⟨hnone, hcre⟩ | ⟨hsome, hcre⟩⟩
        · rw [hname, ht] at hthere
          cases hthere
        · refine Or.inl ⟨fun h => ?_, s₁, ?_⟩
          · have := h (table, writes) (by simp) ht v hf
            rw [hnone] at this
            cases this
          · simp [autoCreate, ht, hf, hcre]
        · have hget : ∀ n, s₁.getTable n = if table = n then some { schema := schemaFromJson table v } else s.getTable n :=
            fun n => by rw [Store.getTable, htabs, OrdMap.getElem?_insert, hname]; rfl
          have heq : autoCreate env s ((table, writes) :: rest) = autoCreate env s₁ rest := by
            simp [autoCreate, ht, hf, hcre]
          rw [schemasPrint_cons hnot hf hsome hget, heq]
          rcases ih hd s₁ with ⟨hno, hex⟩ | ⟨hyes, s', hr, hc⟩
          · exact Or.inl ⟨hno, hex⟩
          · exact Or.inr ⟨hyes, s', hr, hc.cons hf ht hfeed hget⟩

end Create

end Wasm

end OriginDB
