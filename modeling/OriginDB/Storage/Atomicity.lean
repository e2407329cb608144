import Mathlib.Data.List.Induction
import OriginDB.Storage.Database
/-!
# A rejected write set (`StorageEngine::Impl::Commit`, `src/storage/storage_engine.cpp:325-419`)

The loop of `Commit` returns from the middle when a write cannot be applied and undoes nothing. What is
left behind is what the writes before it made of each key (`netRow`), so a rejected commit leaves the
tables alone exactly when those writes cancel out key by key (`commit_atomic_iff`), for instance when
the very first write fails.
-/
namespace OriginDB

open JsonDoc

def rowOf (T : Tables) (n k : Bytes) : Option Row := T[n]?.bind fun t => t.rows[k]?

/-- The same tables with the same schemas and rows, and the same count of rows. -/
structure SameContents (e e' : Engine) : Prop where
  tables : ∀ n : Bytes, e'.tables[n]?.map (fun t => (t.schema, t.rows)) = e.tables[n]?.map fun t => (t.schema, t.rows)
  totalRows : e'.stats.totalRows = e.stats.totalRows

/-! ## What a list of writes makes of one key -/

def rowStep (now : UInt64) (w : WriteOperation) : Option Row → Option Row
  | none => if w.op = .delete then none else some w.row
  | some old => if w.op = .delete then none
      else some { w.row with version := old.version + 1, timestamp := now }

def netRow (clock : Nat → UInt64) (n k : Bytes) : Nat → List WriteOperation → Option Row → Option Row
  | _, [], r => r
  | i, w :: ws, r =>
    netRow clock n k (i + 1) ws (if w.tableName = n ∧ w.row.key = k then rowStep (clock i) w r else r)

/-- Is there a row under `n`, `k` after the writes `before`? The last of them on that key decides. -/
def present (T : Tables) (before : List WriteOperation) (n k : Bytes) : Bool :=
  match (before.filter fun w => w.tableName = n ∧ w.row.key = k).getLast? with
  | some w => w.op ≠ .delete
  | none => (rowOf T n k).isSome

/-- Can `w` be applied after `before`? Its table must be there, and its row too unless it is an INSERT. -/
def applicable (T : Tables) (before : List WriteOperation) (w : WriteOperation) : Bool :=
  T[w.tableName]?.isSome && (w.op = .insert || present T before w.tableName w.row.key)

/-- The writes before the first that cannot be applied. -/
def appliedWrites (T : Tables) : List WriteOperation → List WriteOperation → List WriteOperation
  | before, [] => before
  | before, w :: ws => if applicable T before w then appliedWrites T (before ++ [w]) ws else before

/-- A key no write is on keeps its row. -/
theorem netRow_of_notMem {clock : Nat → UInt64} {n k : Bytes} {i : Nat} {ws : List WriteOperation} {r : Option Row}
    (h : ∀ w ∈ ws, ¬ (w.tableName = n ∧ w.row.key = k)) : netRow clock n k i ws r = r := by
  induction ws generalizing i r with
  | nil => rfl
  | cons w ws ih =>
    rw [netRow, if_neg (h w (by simp))]
    exact ih fun w' hw' => h w' (by simp [hw'])

theorem netRow_concat (clock : Nat → UInt64) (n k : Bytes) (i : Nat) (ws : List WriteOperation) (w : WriteOperation)
    (r : Option Row) : netRow clock n k i (ws ++ [w]) r =
      if w.tableName = n ∧ w.row.key = k then rowStep (clock (i + ws.length)) w (netRow clock n k i ws r)
      else netRow clock n k i ws r := by
  induction ws generalizing i r with
  | nil => rfl
  | cons v ws ih =>
    rw [List.cons_append, netRow, ih, netRow, List.length_cons, Nat.add_right_comm, Nat.add_assoc]

theorem isSome_rowStep (now : UInt64) (w : WriteOperation) (r : Option Row) :
    (rowStep now w r).isSome = decide (w.op ≠ .delete) := by
  cases r <;> by_cases h : w.op = .delete <;> simp [rowStep, h]

theorem isSome_netRow (clock : Nat → UInt64) (T : Tables) (before : List WriteOperation) (n k : Bytes) :
    (netRow clock n k 0 before (rowOf T n k)).isSome = present T before n k := by
  induction before using List.reverseRecOn with
  | nil => rfl
  | append_singleton ws w ih =>
    rw [netRow_concat, present, List.filter_append]
    by_cases h : w.tableName = n ∧ w.row.key = k
    · simp [h, isSome_rowStep]
    · rw [if_neg h, ih, present]
      simp [h]

/-! ## The rows of all tables -/

def rowTotal (T : Tables) : Nat := (T.toList.map fun p => p.2.rows.size).sum

theorem rowTotal_insert {T : Tables} {n : Bytes} {t : MemTable} (h : T[n]? = some t) (t' : MemTable) :
    rowTotal (T.insert n t') + t.rows.size = rowTotal T + t'.rows.size := by
  have h1 := ((OrdMap.toList_perm_erase h).map fun p => p.2.rows.size).sum_nat
  have h2 := ((OrdMap.toList_insert_perm (m := T) (k := n) t').map fun p => p.2.rows.size).sum_nat
  simp only [List.map_cons, List.sum_cons] at h1 h2
  rw [rowTotal, rowTotal, h1, h2]
  omega

theorem rowTotal_congr {T T' : Tables} (h : ∀ n : Bytes, T'[n]?.map (fun t => t.rows.size) = T[n]?.map fun t => t.rows.size) :
    rowTotal T' = rowTotal T :=
  (OrdMap.toList_map_perm (fun t : MemTable => t.rows.size) h).sum_nat

/-! ## The engine after some of the writes -/

/-- `e'` is `e` after the writes `before`. -/
structure After (clock : Nat → UInt64) (e : Engine) (before : List WriteOperation) (e' : Engine) : Prop where
  schemas : ∀ n : Bytes, e'.tables[n]?.map MemTable.schema = e.tables[n]?.map MemTable.schema
  rows : ∀ n k : Bytes, rowOf e'.tables n k = netRow clock n k 0 before (rowOf e.tables n k)
  total : e'.stats.totalRows + UInt64.ofNat (rowTotal e.tables) = e.stats.totalRows + UInt64.ofNat (rowTotal e'.tables)

theorem After.refl (clock : Nat → UInt64) (e : Engine) : After clock e [] e := ⟨fun _ => rfl, fun _ _ => rfl, rfl⟩

theorem rowOf_insert {T : Tables} {n k : Bytes} {t' : MemTable} :
    rowOf (T.insert n t') n k = t'.rows[k]? := by
  simp [rowOf]

theorem rowOf_insert_ne {T : Tables} {m n k : Bytes} {t' : MemTable} (h : n ≠ m) :
    rowOf (T.insert n t') m k = rowOf T m k := by
  rw [rowOf, OrdMap.getElem?_insert, if_neg h]
  rfl

/-- What an applied write makes of every key, and of the count of rows. -/
theorem applyWrite_rowOf {e e' : Engine} {w : WriteOperation} {now : UInt64} {old : Option Row}
    (h : applyWrite e w now = some (e', old)) (n k : Bytes) :
    rowOf e'.tables n k =
      if w.tableName = n ∧ w.row.key = k then rowStep now w (rowOf e.tables n k) else rowOf e.tables n k := by
  obtain ⟨t, t', ht, htabs, -, hcase⟩ := applyWrite_eq_some h
  rw [htabs]
  by_cases hn : w.tableName = n
  · subst hn
    have hrow : rowOf e.tables w.tableName k = t.rows[k]? := by simp [rowOf, ht]
    rw [rowOf_insert, hrow]
    rcases hcase with ⟨hop, hnone, hr, -⟩ | ⟨hop, -, r, hold, hr⟩ | ⟨hop, hsome, hr, -⟩
    · rw [hr, OrdMap.getElem?_insert]
      by_cases hk : w.row.key = k
      · subst hk
        simp [hnone, rowStep, hop]
      · simp [hk]
    · rw [hr, OrdMap.getElem?_insert]
      by_cases hk : w.row.key = k
      · subst hk
        simp [hold, rowStep, hop]
      · simp [hk]
    · rw [hr, OrdMap.getElem?_erase]
      by_cases hk : w.row.key = k
      · subst hk
        obtain ⟨r, hold⟩ := Option.isSome_iff_exists.1 hsome
        simp [hold, rowStep, hop]
      · simp [hk]
  · rw [rowOf_insert_ne hn, if_neg (fun hc => hn hc.1)]

theorem applyWrite_total {e e' : Engine} {w : WriteOperation} {now : UInt64} {old : Option Row}
    (h : applyWrite e w now = some (e', old)) :
    e'.stats.totalRows + UInt64.ofNat (rowTotal e.tables) = e.stats.totalRows + UInt64.ofNat (rowTotal e'.tables) := by
  obtain ⟨t, t', ht, htabs, -, hcase⟩ := applyWrite_eq_some h
  have htotal := rowTotal_insert ht t'
  rw [← htabs] at htotal
  rcases hcase with ⟨-, hnone, hr, hstats⟩ | ⟨-, hstats, r, hold, hr⟩ | ⟨-, hsome, hr, hstats⟩
  · have hsize : t'.rows.size = t.rows.size + 1 := by rw [hr, OrdMap.size_insert_of_none hnone]
    have hrows : rowTotal e'.tables = rowTotal e.tables + 1 := by omega
    rw [hstats, hrows, UInt64.ofNat_add]
    show e.stats.totalRows + 1 + _ = _
    rw [UInt64.add_assoc, UInt64.add_comm 1]
    rfl
  · have hsize : t'.rows.size = t.rows.size := by rw [hr, OrdMap.size_insert_of_some hold]
    have hrows : rowTotal e'.tables = rowTotal e.tables := by omega
    rw [hstats, hrows]
  · have hsize : t.rows.size = t'.rows.size + 1 := by
      obtain ⟨r, hold⟩ := Option.isSome_iff_exists.1 hsome
      rw [hr, OrdMap.size_erase_of_some hold]
    have hrows : rowTotal e.tables = rowTotal e'.tables + 1 := by omega
    rw [hstats, hrows, UInt64.ofNat_add]
    show e.stats.totalRows - 1 + (_ + 1) = _
    rw [UInt64.add_comm _ 1, ← UInt64.add_assoc, UInt64.sub_add_cancel]

section Loop
variable {env : Env} {feed : Bool} {ts : UInt64} {clock : Nat → UInt64} {e e₁ : Engine}
  {before : List WriteOperation}

theorem After.step {e₂ : Engine} {w : WriteOperation} {old : Option Row} (h : After clock e before e₁)
    (hw : applyWrite e₁ w (clock before.length) = some (e₂, old)) : After clock e (before ++ [w]) e₂ := by
  refine ⟨fun n => ?_, fun n k => ?_, ?_⟩
  · obtain ⟨t, t', ht, htabs, hs, -⟩ := applyWrite_eq_some hw
    rw [← h.schemas n, htabs, OrdMap.getElem?_insert]
    by_cases hn : w.tableName = n
    · subst hn
      simp [ht, hs]
    · rw [if_neg hn]
  · rw [applyWrite_rowOf hw, netRow_concat, Nat.zero_add, h.rows n k]
  · have h1 := h.total
    have h2 := applyWrite_total hw
    have hsum : e₂.stats.totalRows + UInt64.ofNat (rowTotal e.tables) + UInt64.ofNat (rowTotal e₁.tables) =
        e.stats.totalRows + UInt64.ofNat (rowTotal e₂.tables) + UInt64.ofNat (rowTotal e₁.tables) := by
      calc _ = e₂.stats.totalRows + UInt64.ofNat (rowTotal e₁.tables) + UInt64.ofNat (rowTotal e.tables) := by ac_rfl
        _ = e₁.stats.totalRows + UInt64.ofNat (rowTotal e.tables) + UInt64.ofNat (rowTotal e₂.tables) := by
          rw [h2]; ac_rfl
        _ = _ := by rw [h1]; ac_rfl
    exact (UInt64.add_left_inj _).1 hsum

/-- The first write that fails is the first that is not `applicable`. -/
theorem After.applicable_iff {w : WriteOperation} {now : UInt64} (h : After clock e before e₁) :
    applyWrite e₁ w now = none ↔ applicable e.tables before w = false := by
  have hrow : (rowOf e₁.tables w.tableName w.row.key).isSome = present e.tables before w.tableName w.row.key := by
    rw [h.rows, isSome_netRow]
  have hsch := h.schemas w.tableName
  rw [applyWrite_eq_none, applicable, ← hrow]
  cases ht : e₁.tables[w.tableName]? with
  | none =>
    rw [ht] at hsch
    have hnone : e.tables[w.tableName]? = none := by
      cases h' : e.tables[w.tableName]? with
      | none => rfl
      | some t => rw [h'] at hsch; cases hsch
    simp [hnone]
  | some t =>
    rw [ht] at hsch
    have hsome : e.tables[w.tableName]?.isSome = true := by
      cases h' : e.tables[w.tableName]? with
      | none => rw [h'] at hsch; cases hsch
      | some t => rfl
    have hr : rowOf e₁.tables w.tableName w.row.key = t.rows[w.row.key]? := by rw [rowOf, ht]; rfl
    rw [hsome, hr]
    simp only [Option.some.injEq, forall_eq']
    generalize t.rows[w.row.key]? = r
    cases w.op <;> cases r <;> simp

theorem After.failed {e' : Engine} {ws : List WriteOperation} (h : After clock e before e₁)
    (hf : applyWrites env feed ts clock before.length e₁ ws = .failed e') :
    After clock e (appliedWrites e.tables before ws) e' := by
  induction ws generalizing before e₁ with
  | nil => cases hf
  | cons w ws ih =>
    simp only [applyWrites] at hf
    rw [appliedWrites]
    split at hf
    · rename_i hnone
      cases hf
      rw [h.applicable_iff.1 hnone]
      exact h
    · rename_i e₂ old hw
      have happ : applicable e.tables before w = true := by
        by_contra hna
        rw [h.applicable_iff.2 (by simpa using hna)] at hw
        cases hw
      rw [if_pos happ]
      split at hf
      · cases hf
      · split at hf
        · cases hf
        · rename_i hrest
          cases hf
          exact ih (h.step hw) (by rw [List.length_append]; exact hrest)
        · cases hf

/-- The contents are the same when every key is. -/
theorem After.sameContents_iff (h : After clock e before e₁) :
    SameContents e e₁ ↔ ∀ n k : Bytes, netRow clock n k 0 before (rowOf e.tables n k) = rowOf e.tables n k := by
  constructor
  · intro hs n k
    rw [← h.rows n k, rowOf, rowOf]
    have ht := hs.tables n
    cases h1 : e₁.tables[n]? <;> cases h0 : e.tables[n]? <;> simp_all
  · intro hnet
    have htabs : ∀ n : Bytes, e₁.tables[n]?.map (fun t => (t.schema, t.rows)) =
        e.tables[n]?.map fun t => (t.schema, t.rows) := by
      intro n
      have hs := h.schemas n
      have hr := fun k => (h.rows n k).trans (hnet n k)
      simp only [rowOf] at hr
      cases h1 : e₁.tables[n]? with
      | none => cases h0 : e.tables[n]? <;> simp_all
      | some t₁ =>
        cases h0 : e.tables[n]? with
        | none => simp_all
        | some t =>
          simp only [h1, h0, Option.bind_some, Option.map_some, Option.some.injEq] at hr hs ⊢
          rw [hs, Std.ExtTreeMap.ext_getElem? hr]
    refine ⟨htabs, ?_⟩
    have hsize : rowTotal e₁.tables = rowTotal e.tables := rowTotal_congr fun n => by
      have ht := congrArg (Option.map fun p : TableSchema × StrMap Row => p.2.size) (htabs n)
      simpa [Option.map_map, Function.comp_def] using ht
    have ht := h.total
    rw [hsize] at ht
    exact (UInt64.add_left_inj _).1 ht

end Loop

/-! ## Atomicity -/

/-- **A rejected commit** logs nothing and announces nothing, and leaves the tables as they were exactly
when the writes applied before the failing one give every key its old row back. -/
theorem commit_atomic_iff (env : Env) (feed : Bool) (clock : Nat → UInt64) (e e' : Engine) (txn : Txn)
    (h : commit env feed clock e txn = .rejected e') :
    (commit env feed clock e txn).entries = [] ∧ (commit env feed clock e txn).events = [] ∧
    (SameContents e e' ↔ ∀ n k : Bytes,
      netRow clock n k 0 (appliedWrites e.tables [] txn.writeSet) (rowOf e.tables n k) = rowOf e.tables n k) := by
  refine ⟨by rw [h]; rfl, by rw [h]; rfl, ?_⟩
  exact ((After.refl clock e).failed (commit_spec.2 e' h)).sameContents_iff

/-- A table `t` without rows. -/
def emptyTable : Engine := { tables := (∅ : Tables).insert (str "t") { schema := ⟨str "t", [], []⟩ } }

/-- An INSERT of `k`, undone, then an UPDATE of a key that is not there. -/
def cancelled : Txn :=
  { timestamp := 1
    writeSet := [⟨.insert, str "t", { key := str "k" }⟩, ⟨.delete, str "t", { key := str "k" }⟩,
      ⟨.update, str "t", { key := str "j" }⟩] }

theorem commit_atomic_cancelled : ∃ e', commit oneRowEnv false (fun _ => 0) emptyTable cancelled = .rejected e' ∧
    SameContents emptyTable e' := by
  refine ⟨_, rfl, (commit_atomic_iff oneRowEnv false (fun _ => 0) emptyTable _ cancelled rfl).2.2.2 fun n k => ?_⟩
  have happ : appliedWrites emptyTable.tables [] cancelled.writeSet =
      [⟨.insert, str "t", { key := str "k" }⟩, ⟨.delete, str "t", { key := str "k" }⟩] := by decide
  have hnone : rowOf emptyTable.tables n k = none := by
    rw [rowOf, emptyTable, OrdMap.getElem?_insert]
    split <;> simp
  rw [happ, hnone]
  by_cases h : str "t" = n ∧ str "k" = k
  · simp [netRow, rowStep, h]
  · simp [netRow, h]

/-- The same without the DELETE. -/
def halfApplied : Txn :=
  { timestamp := 1
    writeSet := [⟨.insert, str "t", { key := str "k" }⟩, ⟨.update, str "t", { key := str "j" }⟩] }

theorem commit_halfApplied : ∃ e', commit oneRowEnv false (fun _ => 0) emptyTable halfApplied = .rejected e' ∧
    rowOf e'.tables (str "t") (str "k") = some { key := str "k" } ∧ e'.stats.totalRows = 1 ∧
    ¬ SameContents emptyTable e' := by
  refine ⟨_, rfl, by decide, by decide, fun h => ?_⟩
  exact absurd h.totalRows (by decide)

end OriginDB
