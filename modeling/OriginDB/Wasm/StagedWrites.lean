import Mathlib.Data.List.Forall2
import OriginDB.Wasm.Execute
/-!
# What becomes of a reducer call's staged writes

The overlay holds one action a key, so its write set touches each key once and `Commit` takes it or refuses
it write by write. `failed_call_iff` says when a call that fails leaves no trace, `staged_commit_iff` when
a call commits to exactly what it staged.
-/
namespace OriginDB

open JsonDoc ByteCodec Lists

namespace Wasm

/-! ## The write set of an overlay -/

theorem mem_entries {o : Overlay} {t k : Bytes} {v : Option Json} : (t, k, v) ∈ o.entries ↔ o.find t k = some v := by
  simp only [Overlay.entries, List.mem_flatMap, List.mem_map, Overlay.find, Option.bind_eq_some_iff]
  constructor
  · rintro ⟨⟨t', ws⟩, hp, ⟨k', v'⟩, hq, he⟩
    simp only [Prod.mk.injEq] at he
    obtain ⟨rfl, rfl, rfl⟩ := he
    exact ⟨ws, Std.ExtTreeMap.mem_toList_iff_getElem?_eq_some.1 hp, Std.ExtTreeMap.mem_toList_iff_getElem?_eq_some.1 hq⟩
  · rintro ⟨ws, hws, hv⟩
    exact ⟨(t, ws), Std.ExtTreeMap.mem_toList_iff_getElem?_eq_some.2 hws, (k, v),
      Std.ExtTreeMap.mem_toList_iff_getElem?_eq_some.2 hv, rfl⟩

theorem nodup_entries (o : Overlay) : (o.entries.map fun e => (e.1, e.2.1)).Nodup := by
  have hmap : o.entries.map (fun e => (e.1, e.2.1)) = o.toList.flatMap fun p => p.2.toList.map fun q => (p.1, q.1) := by
    rw [Overlay.entries, List.map_flatMap]
    refine List.flatMap_congr fun p _ => ?_
    rw [List.map_map]
    rfl
  rw [hmap, List.nodup_flatMap]
  constructor
  · intro p _
    have := (OrdMap.distinct_toList p.2).map (f := fun k => (p.1, k)) fun a b h => (Prod.mk.inj h).2
    rwa [List.map_map] at this
  · refine List.Pairwise.imp ?_ (List.pairwise_map.1 (OrdMap.distinct_toList o))
    intro p q hne x hx hy
    obtain ⟨a, -, rfl⟩ := List.mem_map.1 hx
    obtain ⟨b, -, he⟩ := List.mem_map.1 hy
    exact hne (Prod.mk.inj he).1.symm

section
variable {J : JsonLib} {s : Store} {o : Overlay} {ws : List WriteOperation}

/-- `w` is a write that entry `x` can be staged as, whatever `Get` answered. -/
structure StagedAs (J : JsonLib) (x : Bytes × Bytes × Option Json) (w : WriteOperation) : Prop where
  at_eq : w.at = (x.1, x.2.1)
  op : w.op = .delete ↔ x.2.2 = none
  row : ∀ v, x.2.2 = some v → jsonToRow J x.2.1 v = some w.row

theorem key_jsonToRow {key : Bytes} {v : Json} {row : Row} (h : jsonToRow J key v = some row) : row.key = key := by
  obtain ⟨l, -, rfl⟩ := Option.map_eq_some_iff.1 h
  rfl

theorem stagedAs_stageWrite {x : Bytes × Bytes × Option Json} {w : WriteOperation} (h : stageWrite J s x = some w) :
    StagedAs J x w := by
  obtain ⟨t, k, v⟩ := x
  cases v with
  | none =>
    cases h
    exact ⟨rfl, by simp, by simp⟩
  | some v =>
    obtain ⟨row, hrow, rfl⟩ := Option.map_eq_some_iff.1 h
    have hkey := key_jsonToRow hrow
    subst hkey
    by_cases hsome : (s.get t row.key).isSome = true
    · rw [if_pos hsome]
      exact ⟨rfl, by simp, fun u hu => by cases hu; exact hrow⟩
    · rw [if_neg hsome]
      exact ⟨rfl, by simp, fun u hu => by cases hu; exact hrow⟩

theorem forall₂_stage (h : o.entries.mapM (stageWrite J s) = some ws) : List.Forall₂ (StagedAs J) o.entries ws :=
  (forall₂_of_mapM h).imp fun _ _ hx => stagedAs_stageWrite hx

theorem map_at_staged {es : List (Bytes × Bytes × Option Json)} (h : List.Forall₂ (StagedAs J) es ws) :
    ws.map WriteOperation.at = es.map fun e => (e.1, e.2.1) := by
  induction h with
  | nil => rfl
  | cons hx _ ih => rw [List.map_cons, List.map_cons, ih, hx.at_eq]

/-- The write set of an overlay touches each key once. -/
theorem oncePerKey_staged (h : List.Forall₂ (StagedAs J) o.entries ws) : OncePerKey ws := by
  rw [OncePerKey, map_at_staged h]
  exact nodup_entries o

/-- Every table with a staged write is there, so none is created. -/
def TablesThere (s : Store) (o : Overlay) : Prop :=
  ∀ t writes, o[t]? = some writes → (firstWrite writes).isSome = true → (s.getTable t).isSome = true

/-- The first entry of the overlay is a delete of a row that is not there. -/
def FirstDeleteMisses (s : Store) (o : Overlay) : Prop := ∃ t k rest, o.entries = (t, k, none) :: rest ∧ s.get t k = none

theorem firstWrite_isSome {writes : StrMap (Option Json)} :
    (firstWrite writes).isSome = true ↔ ∃ (k : Bytes) (v : Json), writes[k]? = some (some v) := by
  rw [firstWrite, List.findSome?_isSome_iff]
  simp only [Option.isSome_iff_exists, Prod.exists]
  constructor
  · rintro ⟨k, v, hmem, w, rfl⟩
    exact ⟨k, w, Std.ExtTreeMap.mem_toList_iff_getElem?_eq_some.1 hmem⟩
  · rintro ⟨k, w, hw⟩
    exact ⟨k, some w, Std.ExtTreeMap.mem_toList_iff_getElem?_eq_some.2 hw, w, rfl⟩

/-- A staged write is refused when it is a delete of a row that is not there, and only then. -/
theorem applicable_stageWrite (htabs : TablesThere s o) {x : Bytes × Bytes × Option Json} {w : WriteOperation}
    (hx : x ∈ o.entries) (h : stageWrite J s x = some w) :
    applicable s.engine.tables [] w = false ↔ x.2.2 = none ∧ s.get x.1 x.2.1 = none := by
  obtain ⟨t, k, v⟩ := x
  rw [Bool.eq_false_iff, ne_eq, applicable_nil, Store.get_eq]
  cases v with
  | none =>
    cases h
    simp only [reduceCtorEq, false_or, true_and]
    cases hrow : rowOf s.engine.tables t k with
    | none => simp
    | some r =>
      have ht : s.engine.tables[t]?.isSome = true := by
        cases ht : s.engine.tables[t]? with
        | none => simp [rowOf, ht] at hrow
        | some t => rfl
      simp [ht]
  | some v =>
    obtain ⟨row, hrow, rfl⟩ := Option.map_eq_some_iff.1 h
    obtain ⟨l, -, rfl⟩ := Option.map_eq_some_iff.1 hrow
    have hfind := mem_entries.1 hx
    obtain ⟨writes, hwrites, hv⟩ := Option.bind_eq_some_iff.1 hfind
    have ht : s.engine.tables[t]?.isSome = true := htabs t writes hwrites (firstWrite_isSome.2 ⟨k, v, hv⟩)
    rw [Store.get_eq]
    by_cases hsome : (rowOf s.engine.tables t k).isSome = true <;> simp [hsome, ht]

theorem autoCreate_tablesThere {env : Env} {l : List (Bytes × StrMap (Option Json))}
    (h : ∀ p ∈ l, (firstWrite p.2).isSome = true → (s.getTable p.1).isSome = true) :
    autoCreate env s l = .returned (.ok ()) s := by
  induction l with
  | nil => rfl
  | cons p l ih =>
    have hrest := ih fun q hq => h q (by simp [hq])
    rw [autoCreate, hrest]
    split
    · rfl
    · rename_i hno
      cases hf : firstWrite p.2 with
      | none => rfl
      | some v => exact absurd (h p (by simp) (by rw [hf]; rfl)) hno

end

/-! ## A call that fails -/

section Failed
variable {env : Env} {maxLag : Nat} {io : Io}

/-- A failed commit leaves no trace exactly when it created no table and its first write was refused. -/
theorem commitHostCall_failed {moduleName err : Bytes} {call : HostCallContext} {s s' : Store}
    (h : commitHostCall env maxLag io moduleName call s = .returned (.error err) s') :
    s.SameData s' ↔ TablesThere s call.overlay ∧ FirstDeleteMisses s call.overlay := by
  simp only [commitHostCall] at h
  split at h
  · cases h
  · rcases autoCreate_spec env (OrdMap.distinct_toList call.overlay) s with ⟨-, s₁, hr⟩ | ⟨-, s₁, hr, hcreated⟩
    · rw [hr] at h
      cases h
    · rw [hr] at h
      simp only at h
      cases hws : call.overlay.entries.mapM (stageWrite env.toJsonLib s₁) with
      | none =>
        rw [hws] at h
        cases h
      | some ws =>
        rw [hws] at h
        simp only at h
        split at h
        · cases h
        · rename_i s₂ hcommit
          cases h
          obtain ⟨-, hschemas, hsame⟩ := Store.commit_false (oncePerKey_staged (forall₂_stage hws)) hcommit
          by_cases htabs : TablesThere s call.overlay
          · have hs : s = s₁ := by
              rw [autoCreate_tablesThere fun p hp =>
                htabs p.1 p.2 (Std.ExtTreeMap.mem_toList_iff_getElem?_eq_some.1 hp)] at hr
              cases hr
              rfl
            subst hs
            rw [hsame, FirstDeleteMisses]
            have hf := forall₂_of_mapM hws
            cases hes : call.overlay.entries with
            | nil =>
              rw [hes] at hf
              cases hf
              simp
            | cons x xs =>
              rw [hes] at hf
              cases hf with
              | cons hx _ =>
                have happ := applicable_stageWrite htabs (by rw [hes]; simp) hx
                obtain ⟨t, k, v⟩ := x
                simp only [List.cons.injEq, Prod.mk.injEq]
                constructor
                · rintro ⟨w, rest, ⟨rfl, rfl⟩, hna⟩
                  obtain ⟨hv, hnone⟩ := happ.1 hna
                  exact ⟨htabs, t, k, xs, ⟨⟨rfl, rfl, hv⟩, rfl⟩, hnone⟩
                · rintro ⟨-, _, _, _, ⟨⟨rfl, rfl, hv⟩, rfl⟩, hnone⟩
                  exact ⟨_, _, ⟨rfl, rfl⟩, happ.2 ⟨hv, hnone⟩⟩
          · -- a table that was missing is there now
            refine iff_of_false (fun hs => htabs ?_) fun hc => htabs hc.1
            intro t writes hw hfirst
            by_contra hno
            have hnone : s.getTable t = none := by simpa using hno
            have hnew := hcreated.missing t hnone
            rw [OrdMap.lookup_toList, hw, Option.bind_some] at hnew
            obtain ⟨v, hv⟩ := Option.isSome_iff_exists.1 hfirst
            rw [hv] at hnew
            have h1 := hschemas t
            have h2 := hs.tables t
            rw [show s₁.engine.tables[t]? = _ from hnew] at h1
            rw [show s.engine.tables[t]? = none from hnone] at h2
            cases ht : s'.engine.tables[t]? with
            | none =>
              rw [ht] at h1
              cases h1
            | some u =>
              rw [ht] at h2
              cases h2
        · cases h

/-- The call did not get as far as its commit. -/
def FailsEarly (entry : Entry) (ended : GuestEnd) : Prop :=
  entry.shutdown = true ∨ entry.instantiation ≠ .ok () ∨ ∀ status, ended = .returned status → status < 0

/-- **A call that fails changes nothing exactly when** it did not reach its commit, or created no table and
its first staged action is a delete of a row that is not there. -/
theorem failed_call_iff (env : Env) (maxLag : Nat) (io : Io) (caps : ModuleCapabilities) (moduleName reducer : Bytes)
    (entry : Entry) (guest : Guest) (s s' : Store) (r : WasmResult)
    (h : execute env maxLag io caps moduleName reducer entry guest s = .returned r s') (hf : r.success = false) :
    s.SameData s' ↔ FailsEarly entry (guest.run env.toJsonLib caps s {}).2 ∨
      (TablesThere s (guest.run env.toJsonLib caps s {}).1.overlay ∧
        FirstDeleteMisses s (guest.run env.toJsonLib caps s {}).1.overlay) := by
  rw [execute] at h
  split at h
  · rename_i hshut
    cases h
    exact iff_of_true (.refl s) (Or.inl (Or.inl hshut))
  · rename_i hshut
    split at h
    · rename_i e he
      cases h
      exact iff_of_true (.refl s) (Or.inl (Or.inr (Or.inl (by simp [he]))))
    · rename_i hinst
      split at h
      · cases h
      · rename_i call message hrun
        cases h
        exact iff_of_true (.refl s) (Or.inl (Or.inr (Or.inr (by simp [hrun]))))
      · rename_i call status hrun
        split at h
        · rename_i hstatus
          subst hstatus
          split at h
          · cases h
            cases hf
          · cases h
            refine iff_of_true (.refl s) (Or.inl (Or.inr (Or.inr fun st hst => ?_)))
            rw [hrun] at hst
            cases hst
            decide
        · split at h
          · rename_i hneg
            cases h
            refine iff_of_true (.refl s) (Or.inl (Or.inr (Or.inr fun st hst => ?_)))
            rw [hrun] at hst
            cases hst
            exact hneg
          · rename_i hneg
            have hlate : ¬ FailsEarly entry (guest.run env.toJsonLib caps s {}).2 := by
              rintro (hs | hi | hg)
              · exact hshut hs
              · exact hi hinst
              · exact hneg (hg status (by rw [hrun]))
            rw [or_iff_right hlate, hrun]
            split at h
            · cases h
            · rename_i hc
              cases h
              exact commitHostCall_failed hc
            · cases h
              cases hf

end Failed

/-- `{"a":5}`, as a module writes it, and the row it becomes. -/
def five : Bytes := str "\x7b\"a\":5\x7d"

def rowFive : Row := { key := str "k", columns := (∅ : Columns).insert (str "a") (.int64 5) }

def fiveEnv : Env :=
  { order := .sorted
    toJsonLib := .ofTable [(.object [(str "a", .int 5)], five),
      (rowJson rowFive, str "\x7b\"columns\":\x7b\"a\":5\x7d,\"key\":\"k\"\x7d")] (by decide) }

/-- A reducer that deletes a row that is not there. -/
def deletesAbsent : Guest := .delete (str "t") (str "k") fun _ => .returns 0

theorem failed_call_deletesAbsent : ∃ r s', execute fiveEnv 100000 {} {} (str "m") (str "f") {} deletesAbsent { engine := emptyTable } =
    .returned r s' ∧ r.success = false ∧ Store.SameData { engine := emptyTable } s' := by
  refine ⟨_, _, rfl, rfl, (failed_call_iff fiveEnv 100000 {} {} (str "m") (str "f") {} deletesAbsent _ _ _ rfl rfl).2
    (Or.inr ⟨?_, str "t", str "k", [], by decide, by decide⟩)⟩
  intro t writes hw hfirst
  obtain ⟨k, v, hv⟩ := firstWrite_isSome.1 hfirst
  have hmem : (t, k, some v) ∈ (deletesAbsent.run fiveEnv.toJsonLib {} { engine := emptyTable } {}).1.overlay.entries :=
    mem_entries.2 (by rw [Overlay.find, hw]; exact hv)
  rw [show (deletesAbsent.run fiveEnv.toJsonLib {} { engine := emptyTable } {}).1.overlay.entries =
    [(str "t", str "k", none)] by decide] at hmem
  simp at hmem

/-- A reducer that writes one row and deletes another that is not there. -/
def writesAndDeletes : Guest := .write (str "t") (str "k") five fun _ => .delete (str "t") (str "z") fun _ => .returns 0

/-- It fails, and the row it wrote stays. -/
theorem failed_call_halfApplied : ∃ r s', execute fiveEnv 100000 {} {} (str "m") (str "f") {} writesAndDeletes { engine := emptyTable } =
    .returned r s' ∧ r.success = false ∧ r.error = str "commit failed: transaction commit failed" ∧
    ¬ Store.SameData { engine := emptyTable } s' := by
  refine ⟨_, _, rfl, rfl, rfl, fun hs => ?_⟩
  have hk := hs.rowOf_eq (str "t") (str "k")
  revert hk
  decide

/-! ## A call that only writes and deletes -/

inductive HostOp where
  | write (table key value : Bytes)
  | delete (table key : Bytes)
deriving DecidableEq

section Staged
variable (J : JsonLib) (caps : ModuleCapabilities)

def HostOp.call (call : HostCallContext) : HostOp → HostCallContext
  | .write table key value => (hostTableWrite J caps call table key value).2
  | .delete table key => (hostTableDelete caps call table key).2

def callAll (ops : List HostOp) : HostCallContext := ops.foldl (HostOp.call J caps) {}

/-- What an operation stages, if it is not refused. -/
def HostOp.stages : HostOp → Option ((Bytes × Bytes) × Option Json)
  | .write table key value =>
    if caps.readOnly ∨ tableAllowed caps table = false then none
    else match J.parse value with
      | some (.object m) => some ((table, key), some (.object m))
      | _ => none
  | .delete table key =>
    if caps.readOnly ∨ tableAllowed caps table = false then none else some ((table, key), none)

/-- The last action staged for a key. -/
def lastStaged (ops : List HostOp) (table key : Bytes) : Option (Option Json) :=
  (ops.filterMap (HostOp.stages J caps)).reverse.lookup (table, key)

theorem overlay_call (call : HostCallContext) (op : HostOp) :
    (op.call J caps call).overlay = (op.stages J caps).elim call.overlay fun p => call.overlay.stage p.1.1 p.1.2 p.2 := by
  cases op with
  | write table key value =>
    simp only [HostOp.call, hostTableWrite, HostOp.stages]
    split
    · rfl
    · cases J.parse value with
      | none => rfl
      | some v => cases v <;> rfl
  | delete table key =>
    simp only [HostOp.call, hostTableDelete, HostOp.stages]
    split <;> rfl

/-- The overlay holds the last action of every key. -/
theorem find_callAll (ops : List HostOp) (t k : Bytes) : (callAll J caps ops).overlay.find t k = lastStaged J caps ops t k := by
  induction ops using List.reverseRecOn with
  | nil => simp [callAll, lastStaged, Overlay.find]
  | append_singleton ops op ih =>
    have hcall : callAll J caps (ops ++ [op]) = op.call J caps (callAll J caps ops) := by
      rw [callAll, List.foldl_append]
      rfl
    rw [hcall, overlay_call, lastStaged, List.filterMap_append, List.reverse_append]
    cases hop : op.stages J caps with
    | none =>
      rw [List.filterMap_cons_none hop]
      exact ih
    | some p =>
      obtain ⟨⟨table, key⟩, v⟩ := p
      rw [List.filterMap_cons_some hop]
      simp only [Option.elim_some, find_stage, List.filterMap_nil, List.reverse_singleton, List.singleton_append,
        List.lookup_cons]
      by_cases hk : table = t ∧ key = k
      · obtain ⟨rfl, rfl⟩ := hk
        simp
      · have hne : (t, k) ≠ (table, key) := fun he => hk ⟨(Prod.mk.inj he).1.symm, (Prod.mk.inj he).2.symm⟩
        rw [if_neg hk, beq_eq_false_iff_ne.2 hne]
        exact ih

end Staged

/-- `s'` is `s` with the staged actions done. -/
structure CommitsTo (J : JsonLib) (act : Bytes → Bytes → Option (Option Json)) (s s' : Store) : Prop where
  rows : ∀ t k, match act t k with
    | some (some v) => ∃ row r, jsonToRow J k v = some row ∧ s'.get t k = some r ∧ r.key = k ∧ r.columns = row.columns
    | some none => s'.get t k = none
    | none => s'.get t k = s.get t k
  kept : ∀ t tbl, s.getTable t = some tbl → ∃ tbl', s'.getTable t = some tbl' ∧ tbl'.schema = tbl.schema
  created : ∀ t, s.getTable t = none → ((s'.getTable t).isSome = true ↔ ∃ k v, act t k = some (some v))

/-- Everything the commit prints can be printed: the schemas of the tables it creates, the rows it writes
and the rows it replaces. -/
structure Prints (J : JsonLib) (act : Bytes → Bytes → Option (Option Json)) (o : Overlay) (s : Store) : Prop where
  schemas : SchemasPrint J s o.toList
  new : ∀ t k v, act t k = some (some v) → ∃ row, jsonToRow J k v = some row ∧ (serializeRow J row).isSome = true
  old : ∀ t k a, act t k = some a → ∀ r, s.get t k = some r → (serializeRow J r).isSome = true

section Commits
variable {env : Env} {maxLag : Nat} {io : Io} {s s₁ : Store} {o : Overlay}

/-- A new table has no rows. -/
theorem Created.get_eq {l : List (Bytes × StrMap (Option Json))} (h : Created l s s₁) (t k : Bytes) :
    s₁.get t k = s.get t k := by
  cases ht : s.getTable t with
  | some tbl => rw [Store.get, Store.get, h.kept t tbl ht, ht]
  | none =>
    rw [Store.get, Store.get, h.missing t ht, ht]
    cases (l.lookup t).bind firstWrite with
    | none => rfl
    | some v => simp [MemTable.get]

theorem Created.isSome {t : Bytes} (h : Created o.toList s s₁) :
    (s₁.getTable t).isSome = true ↔ (s.getTable t).isSome = true ∨ ∃ k v, o.find t k = some (some v) := by
  cases ht : s.getTable t with
  | some tbl => simp [h.kept t tbl ht]
  | none =>
    rw [h.missing t ht, OrdMap.lookup_toList, Option.isSome_map]
    cases ho : o[t]? with
    | none => simp [Overlay.find, ho]
    | some writes => simp [Overlay.find, ho, firstWrite_isSome]

/-- A staged action that commits: a delete finds its row, and what is written and replaced can be printed. -/
structure EntryCommits (J : JsonLib) (s : Store) (x : Bytes × Bytes × Option Json) : Prop where
  there : x.2.2 = none → (s.get x.1 x.2.1).isSome = true
  new : ∀ v, x.2.2 = some v → ∃ row, jsonToRow J x.2.1 v = some row ∧ (serializeRow J row).isSome = true
  old : ∀ r, s.get x.1 x.2.1 = some r → (serializeRow J r).isSome = true

theorem applies_stageWrite (hc : Created o.toList s s₁) {x : Bytes × Bytes × Option Json} {w : WriteOperation}
    (hx : x ∈ o.entries) (h : stageWrite env.toJsonLib s₁ x = some w) :
    Applies env.toJsonLib s₁.engine.tables w ↔ EntryCommits env.toJsonLib s x := by
  obtain ⟨t, k, v⟩ := x
  have hat := (stagedAs_stageWrite h).at_eq
  obtain ⟨htable, hkey⟩ := WriteOperation.at_eq.1 hat
  have hrow : rowOf s₁.engine.tables w.tableName w.row.key = s.get t k := by
    rw [htable, hkey, ← hc.get_eq t k]
    rfl
  cases v with
  | none =>
    cases h
    constructor
    · intro ha
      refine ⟨fun _ => ?_, by simp, fun r hr => ha.old r (hrow.trans hr)⟩
      rcases ha.row with hins | hsome
      · cases hins
      · rwa [hrow] at hsome
    · rintro ⟨hdel, -, hold⟩
      have hsome := hdel rfl
      refine ⟨?_, Or.inr (by rw [hrow]; exact hsome), fun hne => absurd rfl hne, fun r hr => hold r (hrow.symm.trans hr)⟩
      refine (hc.isSome (t := t)).2 (Or.inl ?_)
      cases ht : s.getTable t with
      | none => simp [Store.get, ht] at hsome
      | some tbl => rfl
  | some v =>
    obtain ⟨row, hjson, rfl⟩ := Option.map_eq_some_iff.1 h
    have hrk : row.key = k := by
      obtain ⟨l, -, rfl⟩ := Option.map_eq_some_iff.1 hjson
      rfl
    have hfind : o.find t k = some (some v) := mem_entries.1 hx
    have htab : (s₁.getTable t).isSome = true := hc.isSome.2 (Or.inr ⟨k, v, hfind⟩)
    -- UPDATE or INSERT, it is the same row
    have hw : ∃ op, op ≠ WriteOp.delete ∧ (op = .insert ∨ (s₁.get t k).isSome = true) ∧
        (if (s₁.get t k).isSome = true then (⟨.update, t, { row with key := k }⟩ : WriteOperation) else ⟨.insert, t, row⟩) =
          ⟨op, t, row⟩ := by
      by_cases hsome : (s₁.get t k).isSome = true
      · exact ⟨.update, by simp, Or.inr hsome, by rw [if_pos hsome, ← hrk]⟩
      · exact ⟨.insert, by simp, Or.inl rfl, by rw [if_neg hsome]⟩
    obtain ⟨op, hop, hpres, he⟩ := hw
    rw [he] at hrow ⊢
    constructor
    · intro ha
      refine ⟨by simp, fun u hu => ?_, fun r hr => ha.old r (hrow.trans hr)⟩
      cases hu
      exact ⟨row, hjson, ha.new hop⟩
    · rintro ⟨-, hnew, hold⟩
      obtain ⟨row', hjson', hprint⟩ := hnew v rfl
      have hjson'' : jsonToRow env.toJsonLib k v = some row := hjson
      rw [hjson''] at hjson'
      cases hjson'
      refine ⟨htab, ?_, fun _ => hprint, fun r hr => hold r (hrow.symm.trans hr)⟩
      rcases hpres with hins | hsome
      · exact Or.inl hins
      · exact Or.inr (by rw [hrow, ← hc.get_eq t k]; exact hsome)

/-- What a committed write set makes of every key. -/
theorem get_of_staged {e₁ e : Engine} {clock : Nat → UInt64} {ws : List WriteOperation}
    (hst : List.Forall₂ (StagedAs env.toJsonLib) o.entries ws) (ha : After clock e₁ ws e) {s' : Store}
    (hs : s'.engine.tables = e.tables) (t k : Bytes) :
    match o.find t k with
    | some (some v) => ∃ row r, jsonToRow env.toJsonLib k v = some row ∧ s'.get t k = some r ∧ r.key = k ∧ r.columns = row.columns
    | some none => s'.get t k = none
    | none => s'.get t k = rowOf e₁.tables t k := by
  have hrow : s'.get t k = netRow clock t k 0 ws (rowOf e₁.tables t k) := by
    rw [Store.get_eq, hs, ha.rows]
  have hone := oncePerKey_staged hst
  obtain ⟨hto, hfrom⟩ := mem_of_forall₂ hst
  cases hfind : o.find t k with
  | none =>
    rw [hrow, netRow_of_notMem]
    intro w hw hat
    obtain ⟨⟨t', k', v'⟩, hx, hsx⟩ := hfrom w hw
    have := hsx.at_eq
    rw [WriteOperation.at_eq.2 hat] at this
    cases this
    rw [mem_entries.1 hx] at hfind
    cases hfind
  | some v =>
    obtain ⟨w, hw, hsw⟩ := hto (t, k, v) (mem_entries.2 hfind)
    obtain ⟨htable, hkey⟩ := WriteOperation.at_eq.1 hsw.at_eq
    obtain ⟨now, hnet⟩ := netRow_of_mem clock hone hw 0 (rowOf e₁.tables t k)
    simp only at htable hkey
    rw [htable, hkey] at hnet
    rw [hrow, hnet]
    cases v with
    | none =>
      have hop := hsw.op.2 rfl
      cases rowOf e₁.tables t k <;> simp [rowStep, hop]
    | some v =>
      have hop : w.op ≠ .delete := fun hd => by cases hsw.op.1 hd
      refine ⟨w.row, ?_⟩
      cases hr : rowOf e₁.tables t k <;> simp [rowStep, hop, hkey, hsw.row v rfl]

/-- A call that commits does all that it staged. -/
theorem commitsTo_of_ok {moduleName : Bytes} {call : HostCallContext} {s' : Store}
    (h : commitHostCall env maxLag io moduleName call s = .returned (.ok ()) s') : CommitsTo env.toJsonLib call.overlay.find s s' := by
  simp only [commitHostCall] at h
  split at h
  · rename_i hempty
    cases h
    have ho : call.overlay = ∅ := Std.ExtTreeMap.isEmpty_iff.1 hempty
    have hnone : ∀ t k, call.overlay.find t k = none := fun t k => by simp [Overlay.find, ho]
    refine ⟨fun t k => ?_, fun t tbl ht => ⟨tbl, ht, rfl⟩, fun t ht => ?_⟩
    · rw [hnone]
      rfl
    · refine iff_of_false (fun hsome => ?_) (by simp [hnone])
      rw [Store.getTable_publishAll, ht] at hsome
      cases hsome
  · rcases autoCreate_spec env (OrdMap.distinct_toList call.overlay) s with ⟨-, s₁, hr⟩ | ⟨-, s₁, hr, hc⟩
    · rw [hr] at h
      cases h
    · rw [hr] at h
      simp only at h
      cases hws : call.overlay.entries.mapM (stageWrite env.toJsonLib s₁) with
      | none =>
        rw [hws] at h
        cases h
      | some ws =>
        rw [hws] at h
        simp only at h
        split at h
        · cases h
        · cases h
        · rename_i s₂ hcommit
          cases h
          obtain ⟨e, hafter, htabs⟩ := Store.after_commit hcommit
          refine ⟨fun t k => ?_, fun t tbl ht => ?_, fun t ht => ?_⟩
          · have hget := get_of_staged (forall₂_stage hws) hafter htabs t k
            rw [← Store.get_eq, hc.get_eq t k] at hget
            exact hget
          · have hsch' := hafter.schemas t
            rw [show s₁.engine.tables[t]? = some tbl from hc.kept t tbl ht, ← htabs] at hsch'
            obtain ⟨tbl', ht', hs'⟩ := Option.map_eq_some_iff.1 hsch'
            exact ⟨tbl', ht', hs'⟩
          · have hsome := hc.isSome (t := t)
            rw [ht] at hsome
            simp only [Option.isSome_none, Bool.false_eq_true, false_or] at hsome
            rw [← hsome, ← Option.isSome_map (f := MemTable.schema), ← Option.isSome_map (f := MemTable.schema)]
            have hsch' := hafter.schemas t
            rw [← htabs] at hsch'
            exact iff_of_eq (congrArg (fun o => Option.isSome o = true) hsch')

/-- A call commits exactly when the tables it creates and all it stages allow it. -/
theorem commitHostCall_ok_iff {moduleName : Bytes} {call : HostCallContext} (hio : io.durable = true) :
    (∃ s', commitHostCall env maxLag io moduleName call s = .returned (.ok ()) s') ↔
    SchemasPrint env.toJsonLib s call.overlay.toList ∧ ∀ x ∈ call.overlay.entries, EntryCommits env.toJsonLib s x := by
  simp only [commitHostCall]
  split
  · rename_i hempty
    have ho : call.overlay = ∅ := Std.ExtTreeMap.isEmpty_iff.1 hempty
    refine iff_of_true ⟨_, rfl⟩ ⟨by simp [SchemasPrint, ho], ?_⟩
    intro x hx
    simp [Overlay.entries, ho] at hx
  · rcases autoCreate_spec env (OrdMap.distinct_toList call.overlay) s with ⟨hno, s₁, hr⟩ | ⟨hsch, s₁, hr, hc⟩
    · rw [hr]
      exact iff_of_false (by simp) fun h => hno h.1
    · rw [hr]
      simp only [hsch, true_and]
      cases hws : call.overlay.entries.mapM (stageWrite env.toJsonLib s₁) with
      | none =>
        refine iff_of_false (by simp) fun hall => ?_
        have hex : ∃ ws, call.overlay.entries.mapM (stageWrite env.toJsonLib s₁) = some ws := by
          refine mapM_isSome fun x hx => ?_
          obtain ⟨t, k, v⟩ := x
          cases v with
          | none => rfl
          | some v =>
            obtain ⟨row, hjson, -⟩ := (hall _ hx).new v rfl
            simp only [stageWrite]
            rw [show jsonToRow env.toJsonLib k v = some row from hjson]
            rfl
        obtain ⟨ws, hws'⟩ := hex
        rw [hws] at hws'
        cases hws'
      | some ws =>
        obtain ⟨hto, hfrom⟩ := mem_of_forall₂ (forall₂_of_mapM hws)
        have happly : (∀ w ∈ ws, Applies env.toJsonLib s₁.engine.tables w) ↔
            ∀ x ∈ call.overlay.entries, EntryCommits env.toJsonLib s x := by
          constructor
          · intro h x hx
            obtain ⟨w, hw, hst⟩ := hto x hx
            exact (applies_stageWrite hc hx hst).1 (h w hw)
          · intro h w hw
            obtain ⟨x, hx, hst⟩ := hfrom w hw
            exact (applies_stageWrite hc hx hst).2 (h x hx)
        rw [← happly, ← Store.commit_true_iff maxLag (oncePerKey_staged (forall₂_stage hws)) hio]
        constructor
        · rintro ⟨s', h⟩
          simp only at h
          split at h
          · cases h
          · cases h
          · rename_i s₂ hcommit
            exact ⟨s₂, hcommit⟩
        · rintro ⟨s₂, hcommit⟩
          simp only [hcommit]
          exact ⟨_, rfl⟩

/-- A call that stages one object, in a table that is there, commits when the row and the one it replaces can be printed. -/
theorem commitHostCall_one {moduleName : Bytes} {call : HostCallContext} {table key : Bytes} {v : Json} (hio : io.durable = true)
    (hcall : call.overlay = (∅ : Overlay).stage table key (some v)) (htable : (s.getTable table).isSome = true)
    (hnew : ∃ row, jsonToRow env.toJsonLib key v = some row ∧ (serializeRow env.toJsonLib row).isSome = true)
    (hold : ∀ r, s.get table key = some r → (serializeRow env.toJsonLib r).isSome = true) :
    ∃ s', commitHostCall env maxLag io moduleName call s = .returned (.ok ()) s' := by
  refine (commitHostCall_ok_iff hio).2 ⟨?_, ?_⟩
  · rintro ⟨t, writes⟩ hp hnone
    have hget := Std.ExtTreeMap.mem_toList_iff_getElem?_eq_some.1 hp
    rw [hcall, Overlay.stage, OrdMap.getElem?_insert] at hget
    split at hget
    · rename_i ht
      rw [← ht] at hnone
      rw [hnone] at htable
      cases htable
    · simp at hget
  · rintro ⟨t, k, w⟩ hx
    have hfind := mem_entries.1 hx
    rw [hcall, find_stage] at hfind
    split at hfind
    · rename_i hkey
      obtain ⟨rfl, rfl⟩ := hkey
      cases hfind
      refine ⟨by simp, ?_, hold⟩
      rintro u ⟨⟩
      exact hnew
    · simp [Overlay.find] at hfind

end Commits

/-- **A call that only writes and deletes commits to what it staged exactly when** every row it deletes is
there, and everything the commit prints can be printed. -/
theorem staged_commit_iff (env : Env) (maxLag : Nat) (io : Io) (caps : ModuleCapabilities) (moduleName : Bytes)
    (ops : List HostOp) (s : Store) (hio : io.durable = true) :
    (∃ s', commitHostCall env maxLag io moduleName (callAll env.toJsonLib caps ops) s = .returned (.ok ()) s' ∧
      CommitsTo env.toJsonLib (lastStaged env.toJsonLib caps ops) s s') ↔
    (∀ t k, lastStaged env.toJsonLib caps ops t k = some none → (s.get t k).isSome = true) ∧
      Prints env.toJsonLib (lastStaged env.toJsonLib caps ops) (callAll env.toJsonLib caps ops).overlay s := by
  have hact : lastStaged env.toJsonLib caps ops = (callAll env.toJsonLib caps ops).overlay.find :=
    funext fun t => funext fun k => (find_callAll env.toJsonLib caps ops t k).symm
  have hok : (∃ s', commitHostCall env maxLag io moduleName (callAll env.toJsonLib caps ops) s = .returned (.ok ()) s' ∧
      CommitsTo env.toJsonLib (callAll env.toJsonLib caps ops).overlay.find s s') ↔
      ∃ s', commitHostCall env maxLag io moduleName (callAll env.toJsonLib caps ops) s = .returned (.ok ()) s' :=
    exists_congr fun s' => and_iff_left_of_imp commitsTo_of_ok
  rw [hact, hok, commitHostCall_ok_iff hio]
  constructor
  · rintro ⟨hsch, h⟩
    exact ⟨fun t k hk => (h _ (mem_entries.2 hk)).there rfl, hsch, fun t k v hk => (h _ (mem_entries.2 hk)).new v rfl,
      fun t k a hk => (h _ (mem_entries.2 hk)).old⟩
  · rintro ⟨hdel, hp⟩
    refine ⟨hp.schemas, fun x hx => ?_⟩
    obtain ⟨t, k, v⟩ := x
    have hk := mem_entries.1 hx
    refine ⟨fun hv => hdel t k ?_, fun u hu => hp.new t k u ?_, fun r hr => hp.old t k v hk r hr⟩
    · rw [hk]
      simpa using hv
    · rw [hk]
      simpa using hu

/-- A delete of a row that is not there, and a write of it after that. -/
def rewriteK : List HostOp := [.delete (str "t") (str "k"), .write (str "t") (str "k") five]

theorem staged_commit_rewriteK : ∃ s',
    commitHostCall fiveEnv 100000 {} (str "m") (callAll fiveEnv.toJsonLib {} rewriteK) { engine := emptyTable } =
      .returned (.ok ()) s' ∧
    CommitsTo fiveEnv.toJsonLib (lastStaged fiveEnv.toJsonLib {} rewriteK) { engine := emptyTable } s' := by
  have hlast : ∀ t k a, lastStaged fiveEnv.toJsonLib {} rewriteK t k = some a →
      (t, k) = (str "t", str "k") ∧ a = some (.object [(str "a", .int 5)]) := by
    intro t k a h
    rw [lastStaged, show (rewriteK.filterMap (HostOp.stages fiveEnv.toJsonLib {})).reverse = [((str "t", str "k"), some (.object [(str "a", .int 5)])),
        ((str "t", str "k"), none)] by decide] at h
    by_cases hk : (t, k) = (str "t", str "k")
    · rw [hk] at h
      simp only [List.lookup_cons_self, Option.some.injEq] at h
      exact ⟨hk, h.symm⟩
    · simp [List.lookup_cons, beq_eq_false_iff_ne.2 hk] at h
  refine (staged_commit_iff fiveEnv 100000 {} {} (str "m") _ { engine := emptyTable } rfl).2 ⟨?_, ?_, ?_, ?_⟩
  · intro t k h
    cases (hlast t k none h).2
  · intro p hp hnone
    have hmem := List.mem_map_of_mem (f := Prod.fst) hp
    rw [show (callAll fiveEnv.toJsonLib {} rewriteK).overlay.toList.map Prod.fst = [str "t"] by decide] at hmem
    rw [List.mem_singleton.1 hmem] at hnone
    exact absurd hnone (by decide)
  · intro t k v h
    obtain ⟨he, hv⟩ := hlast t k _ h
    cases he
    cases hv
    exact ⟨rowFive, by decide, by decide⟩
  · intro t k a h r hr
    obtain ⟨he, -⟩ := hlast t k _ h
    cases he
    rw [show Store.get { engine := emptyTable } (str "t") (str "k") = none by decide] at hr
    cases hr

/-- Deleting a row that is not there is an error, not a no-op. -/
theorem staged_delete_refused :
    ¬ ∃ s', commitHostCall fiveEnv 100000 {} (str "m") (callAll fiveEnv.toJsonLib {} [.delete (str "t") (str "k")])
      { engine := emptyTable } = .returned (.ok ()) s' := by
  rintro ⟨s', h⟩
  cases h

/-! ## What a commit depends on -/

theorem autoCreate_sameTables (env : Env) {s t : Store} (h : s.engine.tables = t.engine.tables)
    (l : List (Bytes × StrMap (Option Json))) : (autoCreate env s l).SameTables (autoCreate env t l) := by
  induction l generalizing s t with
  | nil => exact ⟨rfl, h⟩
  | cons p rest ih =>
    obtain ⟨table, writes⟩ := p
    rw [autoCreate, autoCreate, Store.getTable_congr h]
    split
    · exact ih h
    · cases firstWrite writes with
      | none => exact ih h
      | some v =>
        have hc := Store.createTable_sameTables env h (schemaFromJson table v)
        simp only
        cases h1 : s.createTable env (schemaFromJson table v) <;> cases h2 : t.createTable env (schemaFromJson table v) <;>
          rw [h1, h2] at hc
        case returned.returned b s₁ b' t₁ =>
          obtain ⟨rfl, htabs⟩ := hc
          simp only [Store.getTable_congr htabs]
          split
          · exact ⟨rfl, htabs⟩
          · exact ih htabs
        case threw.threw => exact hc
        all_goals exact hc.elim

/-- What the commit of a reducer call does to the tables depends on the tables alone. -/
theorem commitHostCall_sameTables (env : Env) (maxLag : Nat) (io : Io) (moduleName : Bytes) (call : HostCallContext) {s t : Store}
    (h : s.engine.tables = t.engine.tables) :
    (commitHostCall env maxLag io moduleName call s).SameTables (commitHostCall env maxLag io moduleName call t) := by
  simp only [commitHostCall]
  split
  · exact ⟨rfl, h⟩
  · have hauto := autoCreate_sameTables env h call.overlay.toList
    cases h1 : autoCreate env s call.overlay.toList <;> cases h2 : autoCreate env t call.overlay.toList <;>
      rw [h1, h2] at hauto
    case returned.returned r s₁ r' t₁ =>
      obtain ⟨rfl, htabs⟩ := hauto
      cases r with
      | error e => exact ⟨rfl, htabs⟩
      | ok u =>
        have hst : stageWrite env.toJsonLib s₁ = stageWrite env.toJsonLib t₁ := by
          funext x
          obtain ⟨table, key, v⟩ := x
          cases v with
          | none => rfl
          | some v => simp only [stageWrite, Store.get_congr htabs]
        simp only [hst]
        cases call.overlay.entries.mapM (stageWrite env.toJsonLib t₁) with
        | none => exact htabs
        | some ws =>
          have hc := Store.commit_sameTables env maxLag io htabs ws
          simp only
          cases h3 : s₁.commit env maxLag io ws <;> cases h4 : t₁.commit env maxLag io ws <;> rw [h3, h4] at hc
          case returned.returned b s₂ b' t₂ =>
            obtain ⟨rfl, htabs'⟩ := hc
            cases b <;> exact ⟨rfl, htabs'⟩
          case threw.threw => exact hc
          all_goals exact hc.elim
    case threw.threw => exact hauto
    all_goals exact hauto.elim

end Wasm

end OriginDB
