import OriginDB.Wasm.StagedWrites
/-!
# What a reducer call leaves in the tables

However a call ends, its commit has taken in a beginning of what it staged.

| here | there |
| --- | --- |
| `refused`      | `Commit` answers no at a delete of a row that is not there (`storage_engine.cpp:365-373`) |
| `eventPrints`  | the change event of the write, which is printed after the write has been done (`:393-411`) |
| `takeWrites`   | the loop over the write set (`:327-414`), for a set that touches each key once |
| `taken`        | the same, after the staged rows have been converted (`host_functions.cpp:580-588`) |
| `Guest.takes`  | `Execute` (`wasm_engine.cpp:291-357`) |
-/
namespace OriginDB

open JsonDoc ByteCodec Lists

/-- The same tables with the same schemas and rows. -/
def Store.SameTables (s s' : Store) : Prop :=
  ∀ n : Bytes, s'.engine.tables[n]?.map (fun t => (t.schema, t.rows)) = s.engine.tables[n]?.map fun t => (t.schema, t.rows)

namespace Wasm

abbrev StagedAction := Bytes × Bytes × Option Json

section
variable (J : JsonLib) (s : Store)

def refused (x : StagedAction) : Bool := x.2.2.isNone && (s.get x.1 x.2.1).isNone

def eventPrints (x : StagedAction) : Bool :=
  (x.2.2.all fun v => (jsonToRow J x.2.1 v).any fun row => (serializeRow J row).isSome) &&
    (s.get x.1 x.2.1).all fun r => (serializeRow J r).isSome

def takeWrites : List StagedAction → List StagedAction
  | [] => []
  | x :: xs =>
    if refused s x then []
    -- the write has been done when its event throws
    else if eventPrints J s x then x :: takeWrites xs else [x]

/-- What a commit takes in of an overlay. -/
def taken (o : Overlay) : List StagedAction :=
  if o.entries.all fun x => x.2.2.all fun v => (jsonToRow J x.2.1 v).isSome then takeWrites J s o.entries else []

/-- What a call brings into the tables it finds. -/
def Guest.takes (caps : ModuleCapabilities) (g : Guest) : List StagedAction :=
  match g.run J caps s {} with
  | (call, .returned status) => if status < 0 then [] else taken J s call.overlay
  | _ => []

/-- It finds all the tables it writes to. -/
def Guest.CreatesNone (caps : ModuleCapabilities) (g : Guest) : Prop :=
  match g.run J caps s {} with
  | (call, .returned status) => 0 ≤ status → TablesThere s call.overlay
  | _ => True

/-- It leaves no trace. -/
def Guest.Quiet (caps : ModuleCapabilities) (g : Guest) : Prop := g.CreatesNone J s caps ∧ g.takes J s caps = []

/-- `s'` is `s` with the actions done. -/
structure TakenIn (done : List StagedAction) (s' : Store) : Prop where
  schemas : ∀ n : Bytes, s'.engine.tables[n]?.map MemTable.schema = s.engine.tables[n]?.map MemTable.schema
  kept : ∀ t k, (∀ a, (t, k, a) ∉ done) → s'.get t k = s.get t k
  deleted : ∀ t k, (t, k, none) ∈ done → (s.get t k).isSome = true ∧ s'.get t k = none
  written : ∀ t k v, (t, k, some v) ∈ done → ∃ row now, jsonToRow J k v = some row ∧
    s'.get t k = some ((s.get t k).elim row fun old => { row with version := old.version + 1, timestamp := now })

end

/-! ## The loop over the write set -/

section
variable {env : Env} {s s' : Store} {o : Overlay} {clock : Nat → UInt64}

theorem takeWrites_prefix (J : JsonLib) (s : Store) (xs : List StagedAction) : takeWrites J s xs <+: xs := by
  induction xs with
  | nil => exact List.prefix_rfl
  | cons x xs ih =>
    rw [takeWrites]
    split
    · exact List.nil_prefix
    · split
      · exact List.cons_prefix_cons.2 ⟨rfl, ih⟩
      · exact List.cons_prefix_cons.2 ⟨rfl, List.nil_prefix⟩

theorem not_refused_of_mem {J : JsonLib} {x : StagedAction} {xs : List StagedAction} (h : x ∈ takeWrites J s xs) :
    refused s x = false := by
  induction xs with
  | nil => cases h
  | cons y xs ih =>
    rw [takeWrites] at h
    split at h
    · cases h
    · rename_i hy
      have hy : refused s y = false := by simpa using hy
      split at h
      · rcases List.mem_cons.1 h with rfl | h
        · exact hy
        · exact ih h
      · rw [List.mem_singleton.1 h]
        exact hy

theorem applicable_of_fresh {T : Tables} {before : List WriteOperation} {w : WriteOperation}
    (h : ∀ v ∈ before, v.at ≠ w.at) : applicable T before w = applicable T [] w := by
  have hnone : (before.filter fun v => v.tableName = w.tableName ∧ v.row.key = w.row.key) = [] := by
    rw [List.filter_eq_nil_iff]
    intro v hv hat
    exact h v hv (WriteOperation.at_eq.2 (of_decide_eq_true hat))
  rw [applicable, applicable, present, hnone]
  rfl

/-- The event of a write can be printed if that of the action it is for can. -/
theorem isSome_writeEvent_staged (ts : UInt64) (s : Store) {x : StagedAction} {w : WriteOperation}
    (h : StagedAs env.toJsonLib x w) (now : UInt64) :
    (writeEvent env true ts w (s.get x.1 x.2.1) now).isSome = eventPrints env.toJsonLib s x := by
  obtain ⟨t, k, v⟩ := x
  rw [Bool.eq_iff_iff, isSome_writeEvent, eventPrints, Bool.and_eq_true, Option.all_eq_true, Option.all_eq_true]
  refine and_congr ?_ Iff.rfl
  cases v with
  | none => simp [h.op.2 rfl]
  | some v =>
    have hrow := h.row v rfl
    have hop : w.op ≠ .delete := fun hd => by cases h.op.1 hd
    simp [hop, show jsonToRow env.toJsonLib k v = some w.row from hrow]

/-- **The loop over the write set of an overlay** does the writes it takes in, however it ends. -/
theorem applyWrites_takes (ts : UInt64) (htabs : TablesThere s o) {xs : List StagedAction} {ws before : List WriteOperation} {e : Engine}
    (hmem : ∀ x ∈ xs, x ∈ o.entries) (hst : List.Forall₂ (fun x w => stageWrite env.toJsonLib s x = some w) xs ws)
    (honce : OncePerKey (before ++ ws)) (h : After clock s.engine before e) :
    ∃ ws', List.Forall₂ (StagedAs env.toJsonLib) (takeWrites env.toJsonLib s xs) ws' ∧
      After clock s.engine (before ++ ws') (applyWrites env true ts clock before.length e ws).engine := by
  induction hst generalizing before e with
  | nil => exact ⟨[], .nil, by simpa [applyWrites, Applied.engine] using h⟩
  | cons hx _ ih =>
    rename_i x w xs ws hst
    have hfresh : ∀ v ∈ before, v.at ≠ w.at := by
      intro v hv
      rw [OncePerKey, List.map_append, List.map_cons] at honce
      exact (List.nodup_append.1 honce).2.2 _ (List.mem_map_of_mem hv) _ (List.mem_cons_self ..)
    have hstaged := stagedAs_stageWrite hx
    obtain ⟨htable, hkey⟩ := WriteOperation.at_eq.1 hstaged.at_eq
    have hrefused : applyWrite e w (clock before.length) = none ↔ refused s x = true := by
      rw [h.applicable_iff, applicable_of_fresh hfresh, applicable_stageWrite htabs (hmem x (by simp)) hx]
      simp [refused]
    rw [takeWrites, applyWrites]
    cases ha : applyWrite e w (clock before.length) with
    | none =>
      rw [if_pos (hrefused.1 ha)]
      exact ⟨[], .nil, by simpa [Applied.engine] using h⟩
    | some p =>
      obtain ⟨e₁, old⟩ := p
      have hyes : ¬ refused s x = true := fun hr => by
        rw [hrefused.2 hr] at ha
        cases ha
      rw [if_neg hyes]
      -- no write before was on this row
      have hold : old = s.get x.1 x.2.1 := by
        rw [applyWrite_old ha, h.rows, netRow_of_notMem, htable, hkey]
        · rfl
        · intro v hv hat
          exact hfresh v hv (WriteOperation.at_eq.2 hat)
      have hprints := isSome_writeEvent_staged ts s hstaged (clock before.length)
      have hstep := h.step ha
      subst hold
      simp only
      cases hev : writeEvent env true ts w (s.get x.1 x.2.1) (clock before.length) with
      | none =>
        rw [hev] at hprints
        rw [if_neg (by simp [← hprints])]
        exact ⟨[w], .cons hstaged .nil, hstep⟩
      | some evs =>
        rw [hev] at hprints
        rw [if_pos (by simp [← hprints])]
        have honce' : OncePerKey ((before ++ [w]) ++ ws) := by simpa using honce
        obtain ⟨ws', hws', hafter⟩ := ih (fun y hy => hmem y (by simp [hy])) honce' hstep
        rw [List.length_append, List.append_assoc] at hafter
        refine ⟨w :: ws', .cons hstaged hws', ?_⟩
        simp only [List.length_singleton, List.singleton_append] at hafter
        cases hr : applyWrites env true ts clock (before.length + 1) e₁ ws <;> rw [hr] at hafter <;> exact hafter

/-- The rows after it. -/
theorem takenIn_of_after {done : List StagedAction} {ws : List WriteOperation} {e : Engine} (hst : List.Forall₂ (StagedAs env.toJsonLib) done ws)
    (h : After clock s.engine ws e) (honce : (done.map fun x => (x.1, x.2.1)).Nodup)
    (hthere : ∀ x ∈ done, refused s x = false) (hs : s'.engine.tables = e.tables) : TakenIn env.toJsonLib s done s' := by
  have hrow : ∀ t k, s'.get t k = netRow clock t k 0 ws (s.get t k) := by
    intro t k
    rw [Store.get_eq, hs, h.rows]
    rfl
  have hd : OncePerKey ws := by rwa [OncePerKey, map_at_staged hst]
  obtain ⟨hto, hfrom⟩ := mem_of_forall₂ hst
  -- what the one write on a key makes of it
  have hone : ∀ t k a, (t, k, a) ∈ done → ∃ w now, StagedAs env.toJsonLib (t, k, a) w ∧
      s'.get t k = rowStep now w (s.get t k) := by
    intro t k a hmem
    obtain ⟨w, hw, hsw⟩ := hto _ hmem
    obtain ⟨now, hnet⟩ := netRow_of_mem clock hd hw 0 (s.get t k)
    obtain ⟨htable, hkey⟩ := WriteOperation.at_eq.1 hsw.at_eq
    rw [htable, hkey] at hnet
    exact ⟨w, now, hsw, (hrow t k).trans hnet⟩
  constructor
  · intro n
    rw [hs]
    exact h.schemas n
  · intro t k hno
    rw [hrow, netRow_of_notMem]
    intro w hw hat
    obtain ⟨⟨t', k', a⟩, hx, hsx⟩ := hfrom w hw
    have hat' := hsx.at_eq
    rw [WriteOperation.at_eq.2 hat] at hat'
    cases hat'
    exact hno a hx
  · intro t k hmem
    obtain ⟨w, now, hsw, hget⟩ := hone t k none hmem
    have hyes := hthere _ hmem
    simp only [refused, Option.isNone_none, Bool.true_and, Option.isNone_eq_false_iff] at hyes
    have hop := hsw.op.2 rfl
    refine ⟨hyes, ?_⟩
    rw [hget]
    cases s.get t k <;> simp [rowStep, hop]
  · intro t k v hmem
    obtain ⟨w, now, hsw, hget⟩ := hone t k (some v) hmem
    have hop : w.op ≠ .delete := fun hd => by cases hsw.op.1 hd
    refine ⟨w.row, now, hsw.row v rfl, ?_⟩
    rw [hget]
    cases s.get t k <;> simp [rowStep, hop]

theorem TakenIn.refl (J : JsonLib) (h : s.engine.tables = s'.engine.tables) : TakenIn J s [] s' := by
  constructor
  · intro n
    rw [h]
  · intro t k _
    rw [Store.get_congr h]
  · intro t k hmem
    cases hmem
  · intro t k v hmem
    cases hmem

theorem Store.sameTables_iff : s.SameTables s' ↔
    (∀ n : Bytes, s'.engine.tables[n]?.map MemTable.schema = s.engine.tables[n]?.map MemTable.schema) ∧
      ∀ t k, s'.get t k = s.get t k := by
  constructor
  · intro h
    refine ⟨fun n => ?_, fun t k => ?_⟩
    · have ht := congrArg (Option.map Prod.fst) (h n)
      rwa [Option.map_map, Option.map_map] at ht
    · have hrow : ∀ u : Store, u.get t k = (u.engine.tables[t]?.map fun t => (t.schema, t.rows)).bind fun p => p.2[k]? := by
        intro u
        rw [Store.get, Store.getTable]
        cases u.engine.tables[t]? <;> rfl
      rw [hrow, hrow, h t]
  · rintro ⟨hsch, hget⟩ n
    have hs := hsch n
    have hr := hget n
    simp only [Store.get, Store.getTable] at hr
    cases h' : s'.engine.tables[n]? with
    | none =>
      cases h₀ : s.engine.tables[n]? with
      | none => rfl
      | some t =>
        rw [h', h₀] at hs
        cases hs
    | some t' =>
      cases h₀ : s.engine.tables[n]? with
      | none =>
        rw [h', h₀] at hs
        cases hs
      | some t =>
        rw [h', h₀, Option.map_some, Option.map_some, Option.some.injEq] at hs
        simp only [h', h₀, Option.bind_some, MemTable.get] at hr
        rw [Option.map_some, Option.map_some, hs, Std.ExtTreeMap.ext_getElem? hr]

/-- The row a write leaves is not the one it found. -/
theorem written_ne (r : Option Row) (row : Row) (now : UInt64) :
    some (r.elim row fun old => { row with version := old.version + 1, timestamp := now }) ≠ r := by
  cases r with
  | none => simp
  | some old =>
    intro he
    have hv := congrArg (Option.map Row.version) he
    simp at hv

/-- Nor does a second write bring it back. -/
theorem written_twice_ne (r : Option Row) (row row' : Row) (now now' : UInt64) :
    some { row' with
      version := (r.elim row fun old => { row with version := old.version + 1, timestamp := now }).version + 1
      timestamp := now' } ≠ r := by
  cases r with
  | none => simp
  | some old =>
    intro he
    have hv := congrArg (Option.map Row.version) he
    have hne : old.version + 1 + 1 ≠ old.version := by
      rw [UInt64.add_assoc]
      simp
    simp only [Option.elim_some, Option.map_some, Option.some.injEq] at hv
    exact hne hv

/-- No write undoes another one: once anything is taken in, the tables are not what they were. -/
theorem TakenIn.sameTables_iff {J : JsonLib} {done : List StagedAction} (h : TakenIn J s done s') :
    s.SameTables s' ↔ done = [] := by
  rw [Store.sameTables_iff]
  constructor
  · rintro ⟨-, hget⟩
    rw [List.eq_nil_iff_forall_not_mem]
    rintro ⟨t, k, a⟩ hmem
    cases a with
    | none =>
      obtain ⟨hsome, hnone⟩ := h.deleted t k hmem
      rw [← hget, hnone] at hsome
      cases hsome
    | some v =>
      obtain ⟨row, now, -, hrow⟩ := h.written t k v hmem
      exact written_ne _ row now (hrow.symm.trans (hget t k))
  · rintro rfl
    exact ⟨h.schemas, fun t k => h.kept t k fun a ha => by cases ha⟩

theorem Store.not_sameTables_of_created {n : Bytes} (hnone : s.getTable n = none) (hsome : (s'.getTable n).isSome = true) :
    ¬ s.SameTables s' := by
  intro h
  have hn := congrArg Option.isSome (h n)
  rw [Option.isSome_map, Option.isSome_map] at hn
  have hnone : s.engine.tables[n]? = none := hnone
  rw [hnone] at hn
  exact absurd (hn.symm.trans hsome) (by decide)

theorem TakenIn.isSome_getTable {J : JsonLib} {done : List StagedAction} (h : TakenIn J s done s') (n : Bytes) :
    (s'.getTable n).isSome = (s.getTable n).isSome := by
  have hsch := congrArg Option.isSome (h.schemas n)
  rw [Option.isSome_map, Option.isSome_map] at hsch
  exact hsch

/-- The tables an engine is left with, whatever a commit answers. -/
theorem Store.commit_tables (env : Env) (maxLag : Nat) (io : Io) (s : Store) (ws : List WriteOperation) :
    (s.commit env maxLag io ws).store.engine.tables =
      (applyWrites env true (s.nextTimestamp + 1 - 1) io.clock 0 s.engine ws).engine.tables := by
  simp only [Store.commit, OriginDB.commit, ne_eq, not_true_eq_false, if_false]
  cases ws with
  | nil => rfl
  | cons w ws =>
    simp only [reduceCtorEq, if_false]
    cases applyWrites env true (s.nextTimestamp + 1 - 1) io.clock 0 s.engine (w :: ws) with
    | done e entries events =>
      simp only
      split <;> rfl
    | failed e => rfl
    | threw e => rfl

end

/-! ## Tables that are created -/

section
variable (env : Env) {s : Store} {l : List (Bytes × StrMap (Option Json))}

theorem autoCreate_keeps {n : Bytes} (h : (s.getTable n).isSome = true) : ((autoCreate env s l).store.getTable n).isSome = true := by
  induction l generalizing s with
  | nil => exact h
  | cons p rest ih =>
    obtain ⟨table, writes⟩ := p
    rw [autoCreate]
    split
    · exact ih h
    · cases firstWrite writes with
      | none => exact ih h
      | some v =>
        rcases createTable_cases env s (schemaFromJson table v) with ⟨-, hc⟩ | ⟨-, s₁, -, htabs, hc⟩
        · simp only [hc]
          split
          · exact h
          · exact ih h
        · have h₁ : (s₁.getTable n).isSome = true := by
            rw [Store.getTable, htabs, OrdMap.getElem?_insert]
            split
            · rfl
            · exact h
          rcases hc with ⟨-, hc⟩ | ⟨-, hc⟩
          · simp only [hc]
            exact h₁
          · simp only [hc]
            split
            · exact h₁
            · exact ih h₁

/-- The first table that is missing is made, whether or not all goes well then. -/
theorem autoCreate_creates (h : ∃ p ∈ l, (firstWrite p.2).isSome = true ∧ s.getTable p.1 = none) :
    ∃ n, s.getTable n = none ∧ ((autoCreate env s l).store.getTable n).isSome = true := by
  induction l with
  | nil => simp at h
  | cons p rest ih =>
    obtain ⟨table, writes⟩ := p
    rw [autoCreate]
    by_cases hthere : (s.getTable table).isSome = true
    · rw [if_pos hthere]
      refine ih ?_
      obtain ⟨q, hq, hw, hnone⟩ := h
      rcases List.mem_cons.1 hq with rfl | hq
      · rw [hnone] at hthere
        cases hthere
      · exact ⟨q, hq, hw, hnone⟩
    · rw [if_neg hthere]
      have hmissing : s.getTable table = none := by simpa using hthere
      cases hw : firstWrite writes with
      | none =>
        refine ih ?_
        obtain ⟨q, hq, hsome, hnone⟩ := h
        rcases List.mem_cons.1 hq with rfl | hq
        · rw [hw] at hsome
          cases hsome
        · exact ⟨q, hq, hsome, hnone⟩
      | some v =>
        refine ⟨table, hmissing, ?_⟩
        rcases createTable_cases env s (schemaFromJson table v) with ⟨hsome, -⟩ | ⟨-, s₁, -, htabs, hc⟩
        · exact absurd hsome hthere
        · have h₁ : (s₁.getTable table).isSome = true := by
            rw [Store.getTable, htabs, OrdMap.getElem?_insert]
            exact congrArg Option.isSome (if_pos rfl)
          rcases hc with ⟨-, hc⟩ | ⟨-, hc⟩
          · simp only [hc]
            exact h₁
          · simp only [hc]
            split
            · exact h₁
            · exact autoCreate_keeps env h₁

end

/-! ## The call -/

section
variable (env : Env) (maxLag : Nat) (io : Io) (moduleName : Bytes) {s : Store}

theorem commitHostCall_takes {call : HostCallContext} (htabs : TablesThere s call.overlay) :
    TakenIn env.toJsonLib s (taken env.toJsonLib s call.overlay) (commitHostCall env maxLag io moduleName call s).store := by
  have hnone : ∀ {t : Store}, t.engine.tables = s.engine.tables → taken env.toJsonLib s call.overlay = [] →
      TakenIn env.toJsonLib s (taken env.toJsonLib s call.overlay) t := by
    intro t ht hnil
    rw [hnil]
    exact .refl _ ht.symm
  simp only [commitHostCall]
  split
  · rename_i hempty
    have ho : call.overlay = ∅ := Std.ExtTreeMap.isEmpty_iff.1 hempty
    refine hnone rfl ?_
    rw [taken, ho]
    rfl
  · rw [autoCreate_tablesThere fun p hp => htabs p.1 p.2 (Std.ExtTreeMap.mem_toList_iff_getElem?_eq_some.1 hp)]
    simp only
    cases hws : call.overlay.entries.mapM (stageWrite env.toJsonLib s) with
    | none =>
      refine hnone rfl ?_
      rw [taken, if_neg]
      intro hall
      have hex : ∃ ws, call.overlay.entries.mapM (stageWrite env.toJsonLib s) = some ws := by
        refine mapM_isSome fun x hx => ?_
        obtain ⟨t, k, v⟩ := x
        cases v with
        | none => rfl
        | some v =>
          have hv := List.all_eq_true.1 hall _ hx
          simp only [Option.all_some] at hv
          simp only [stageWrite, Option.isSome_map]
          exact hv
      obtain ⟨ws, hws'⟩ := hex
      rw [hws] at hws'
      cases hws'
    | some ws =>
      have hst := forall₂_of_mapM hws
      have hall : (call.overlay.entries.all fun x => x.2.2.all fun v => (jsonToRow env.toJsonLib x.2.1 v).isSome) = true := by
        rw [List.all_eq_true]
        intro x hx
        obtain ⟨t, k, v⟩ := x
        cases v with
        | none => rfl
        | some v =>
          obtain ⟨w, -, hw⟩ := (mem_of_forall₂ hst).1 _ hx
          have hrow := (stagedAs_stageWrite hw).row v rfl
          have hrow : jsonToRow env.toJsonLib k v = some w.row := hrow
          simp [hrow]
      rw [taken, if_pos hall]
      obtain ⟨ws', hws', hafter⟩ := applyWrites_takes (s.nextTimestamp + 1 - 1) htabs (fun x hx => hx) hst
        (oncePerKey_staged (hst.imp fun _ _ hx => stagedAs_stageWrite hx)) (.refl io.clock s.engine)
      have hcommit := Store.commit_tables env maxLag io s ws
      have hbeginning := takeWrites_prefix env.toJsonLib s call.overlay.entries
      have honce := (nodup_entries call.overlay).sublist (hbeginning.sublist.map _)
      -- the events are published once the tables are done
      have hfinal : ∀ t : Store, t.engine.tables = (s.commit env maxLag io ws).store.engine.tables →
          TakenIn env.toJsonLib s (takeWrites env.toJsonLib s call.overlay.entries) t := fun t ht =>
        takenIn_of_after hws' hafter honce (fun x hx => not_refused_of_mem hx) (ht.trans hcommit)
      cases hc : s.commit env maxLag io ws with
      | threw s₁ =>
        simp only [hc]
        exact hfinal s₁ (by rw [hc]; rfl)
      | returned b s₁ =>
        have hs₁ := hfinal s₁ (by rw [hc]; rfl)
        cases b with
        | false =>
          simp only [hc]
          exact hs₁
        | true =>
          simp only [hc]
          exact hfinal _ (by rw [hc]; rfl)

/-- No table that is there when the missing ones have been made is gone in the end. -/
theorem commitHostCall_keeps {call : HostCallContext} {n : Bytes}
    (h : ((autoCreate env s call.overlay.toList).store.getTable n).isSome = true) :
    ((commitHostCall env maxLag io moduleName call s).store.getTable n).isSome = true := by
  simp only [commitHostCall]
  split
  · rename_i hempty
    rw [Std.ExtTreeMap.isEmpty_iff.1 hempty] at h
    exact h
  · cases ha : autoCreate env s call.overlay.toList with
    | threw s₁ =>
      rw [ha] at h
      exact h
    | returned r s₁ =>
      rw [ha] at h
      cases r with
      | error e => exact h
      | ok u =>
        simp only
        cases call.overlay.entries.mapM (stageWrite env.toJsonLib s₁) with
        | none => exact h
        | some ws =>
          have hkept : ((s₁.commit env maxLag io ws).store.getTable n).isSome = true := by
            have hsch : (s₁.commit env maxLag io ws).store.engine.tables[n]?.map MemTable.schema =
                s₁.engine.tables[n]?.map MemTable.schema := by
              rw [Store.commit_tables]
              exact applyWrites_schemas env true _ io.clock 0 s₁.engine ws n
            have hsome := congrArg Option.isSome hsch
            rw [Option.isSome_map, Option.isSome_map] at hsome
            exact hsome.trans h
          simp only
          cases hc : s₁.commit env maxLag io ws with
          | threw s₂ =>
            rw [hc] at hkept
            exact hkept
          | returned b s₂ =>
            rw [hc] at hkept
            cases b <;> exact hkept

theorem commitHostCall_creates {call : HostCallContext} (h : ¬ TablesThere s call.overlay) :
    ∃ n, s.getTable n = none ∧ ((commitHostCall env maxLag io moduleName call s).store.getTable n).isSome = true := by
  have hmissing : ∃ p ∈ call.overlay.toList, (firstWrite p.2).isSome = true ∧ s.getTable p.1 = none := by
    by_contra hno
    refine h fun t writes hw hfirst => ?_
    by_contra hnot
    exact hno ⟨(t, writes), Std.ExtTreeMap.mem_toList_iff_getElem?_eq_some.2 hw, hfirst, by simpa using hnot⟩
  obtain ⟨n, hnone, hsome⟩ := autoCreate_creates env hmissing
  exact ⟨n, hnone, commitHostCall_keeps env maxLag io moduleName hsome⟩

variable (caps : ModuleCapabilities) (reducer : Bytes) (g : Guest) (s : Store)

/-- A call on an engine that is up gets to its commit when the module returns no error. -/
theorem execute_store : (execute env maxLag io caps moduleName reducer {} g s).store =
    match g.run env.toJsonLib caps s {} with
    | (call, .returned status) => if status < 0 then s else (commitHostCall env maxLag io moduleName call s).store
    | _ => s := by
  simp only [execute, Bool.false_eq_true, if_false]
  cases hrun : g.run env.toJsonLib caps s {} with
  | mk call ended =>
    cases ended with
    | threw => rfl
    | trapped message => rfl
    | returned status =>
      simp only
      by_cases hneg : status < 0
      · -- no handler is an error too
        simp only [hneg, if_true]
        split
        · split <;> rfl
        · rfl
      · have hno : status ≠ errNoHandler := by
          rintro rfl
          exact hneg (by decide)
        simp only [hno, hneg, if_false]
        cases commitHostCall env maxLag io moduleName call s with
        | threw s₁ => rfl
        | returned r s₁ => cases r <;> rfl

/-- **What a call leaves in the tables**, whether it answers, fails or throws. -/
theorem execute_takes (h : g.CreatesNone env.toJsonLib s caps) :
    TakenIn env.toJsonLib s (g.takes env.toJsonLib s caps) (execute env maxLag io caps moduleName reducer {} g s).store := by
  rw [execute_store]
  revert h
  simp only [Guest.CreatesNone, Guest.takes]
  cases g.run env.toJsonLib caps s {} with
  | mk call ended =>
    cases ended with
    | threw => exact fun _ => .refl _ rfl
    | trapped message => exact fun _ => .refl _ rfl
    | returned status =>
      intro h
      by_cases hneg : status < 0
      · simp only [hneg, if_true]
        exact .refl _ rfl
      · simp only [hneg, if_false]
        exact commitHostCall_takes env maxLag io moduleName (h (Int32.not_lt.1 hneg))

theorem execute_creates (h : ¬ g.CreatesNone env.toJsonLib s caps) : ∃ n, s.getTable n = none ∧
    ((execute env maxLag io caps moduleName reducer {} g s).store.getTable n).isSome = true := by
  rw [execute_store]
  revert h
  simp only [Guest.CreatesNone]
  cases g.run env.toJsonLib caps s {} with
  | mk call ended =>
    cases ended with
    | threw => exact fun h => absurd trivial h
    | trapped message => exact fun h => absurd trivial h
    | returned status =>
      intro h
      by_cases hneg : status < 0
      · exact absurd (fun hle => absurd hneg (Int32.not_lt.2 hle)) h
      · simp only [hneg, if_false]
        exact commitHostCall_creates env maxLag io moduleName fun ht => h fun _ => ht

theorem execute_keeps {n : Bytes} (h : (s.getTable n).isSome = true) :
    ((execute env maxLag io caps moduleName reducer {} g s).store.getTable n).isSome = true := by
  rw [execute_store]
  cases g.run env.toJsonLib caps s {} with
  | mk call ended =>
    cases ended with
    | threw => exact h
    | trapped message => exact h
    | returned status =>
      simp only
      split
      · exact h
      · exact commitHostCall_keeps env maxLag io moduleName (autoCreate_keeps env h)

/-- **The tables are as they were exactly when** the call creates none and its commit takes in nothing. -/
theorem execute_sameTables_iff : s.SameTables (execute env maxLag io caps moduleName reducer {} g s).store ↔
    g.Quiet env.toJsonLib s caps := by
  by_cases hnone : g.CreatesNone env.toJsonLib s caps
  · rw [(execute_takes env maxLag io moduleName caps reducer g s hnone).sameTables_iff]
    exact ⟨fun h => ⟨hnone, h⟩, fun h => h.2⟩
  · refine iff_of_false (fun h => ?_) fun h => hnone h.1
    obtain ⟨n, hmissing, hsome⟩ := execute_creates env maxLag io moduleName caps reducer g s hnone
    exact Store.not_sameTables_of_created hmissing hsome h

end

/-! ## One call after the other -/

/-- What the first call took in, the second takes back, and nothing else: rows that were added are deleted, and rows that
were deleted are written as they were. A row that has been replaced has a version of its own, and no write brings the
old one back. -/
structure TakenBack (J : JsonLib) (s : Store) (first second : List StagedAction) : Prop where
  added : ∀ t k v, (t, k, some v) ∈ first → s.get t k = none ∧ (t, k, none) ∈ second
  deleted : ∀ t k, (t, k, none) ∈ first → ∃ v, (t, k, some v) ∈ second ∧ jsonToRow J k v = s.get t k
  others : ∀ t k a, (t, k, a) ∈ second → ∃ b, (t, k, b) ∈ first

theorem TakenIn.sameTables_trans_iff {J : JsonLib} {first second : List StagedAction} {s s₁ s₂ : Store}
    (h₁ : TakenIn J s first s₁) (h₂ : TakenIn J s₁ second s₂) : s.SameTables s₂ ↔ TakenBack J s first second := by
  rw [Store.sameTables_iff]
  constructor
  · rintro ⟨-, hget⟩
    refine ⟨fun t k v hmem => ?_, fun t k hmem => ?_, fun t k a hmem => ?_⟩
    · obtain ⟨row, now, -, hrow⟩ := h₁.written t k v hmem
      by_cases hsecond : ∃ a, (t, k, a) ∈ second
      · obtain ⟨a, ha⟩ := hsecond
        cases a with
        | none => exact ⟨(hget t k).symm.trans (h₂.deleted t k ha).2, ha⟩
        | some u =>
          obtain ⟨row', now', -, hrow'⟩ := h₂.written t k u ha
          rw [hget, hrow, Option.elim_some] at hrow'
          exact absurd hrow'.symm (written_twice_ne _ row row' now now')
      · have hkept := h₂.kept t k fun a ha => hsecond ⟨a, ha⟩
        rw [hget, hrow] at hkept
        exact absurd hkept.symm (written_ne _ row now)
    · obtain ⟨hsome, hnone⟩ := h₁.deleted t k hmem
      by_cases hsecond : ∃ a, (t, k, a) ∈ second
      · obtain ⟨a, ha⟩ := hsecond
        cases a with
        | none =>
          have hthere := (h₂.deleted t k ha).1
          rw [hnone] at hthere
          cases hthere
        | some v =>
          obtain ⟨row, now, hjson, hrow⟩ := h₂.written t k v ha
          rw [hget, hnone, Option.elim_none] at hrow
          exact ⟨v, ha, hjson.trans hrow.symm⟩
      · have hkept := h₂.kept t k fun a ha => hsecond ⟨a, ha⟩
        rw [hget, hnone] at hkept
        rw [hkept] at hsome
        cases hsome
    · by_contra hno
      have hkept := h₁.kept t k fun b hb => hno ⟨b, hb⟩
      cases a with
      | none =>
        obtain ⟨hsome, hnone⟩ := h₂.deleted t k hmem
        rw [hkept, ← hget, hnone] at hsome
        cases hsome
      | some v =>
        obtain ⟨row, now, -, hrow⟩ := h₂.written t k v hmem
        rw [hget, hkept] at hrow
        exact written_ne _ row now hrow.symm
  · intro hback
    refine ⟨fun n => (h₂.schemas n).trans (h₁.schemas n), fun t k => ?_⟩
    by_cases hfirst : ∃ a, (t, k, a) ∈ first
    · obtain ⟨a, ha⟩ := hfirst
      cases a with
      | none =>
        obtain ⟨v, hv, hjson⟩ := hback.deleted t k ha
        obtain ⟨row, now, hrow, hnow⟩ := h₂.written t k v hv
        rw [hnow, (h₁.deleted t k ha).2, Option.elim_none, ← hjson, hrow]
      | some v =>
        obtain ⟨hnone, hdel⟩ := hback.added t k v ha
        rw [(h₂.deleted t k hdel).2, hnone]
    · rw [h₂.kept t k fun a ha => hfirst (hback.others t k a ha), h₁.kept t k fun a ha => hfirst ⟨a, ha⟩]

end Wasm

end OriginDB
