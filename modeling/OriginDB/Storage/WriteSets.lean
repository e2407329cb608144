import OriginDB.Storage.Store
/-!
# Write sets that touch each key once

No write of such a set meets what an earlier one left, so whether `Commit` applies it is decided write by
write on the tables it starts from (`applyWrites_done_iff`), every key gets the row its one write gives
it (`netRow_of_mem`), and no write undoes another: once one is applied, something has changed
(`netRow_ne_of_applied`).
-/
namespace OriginDB

open JsonDoc

def WriteOperation.at (w : WriteOperation) : Bytes × Bytes := (w.tableName, w.row.key)

/-- One write a key. -/
def OncePerKey (ws : List WriteOperation) : Prop := (ws.map WriteOperation.at).Nodup

theorem WriteOperation.at_eq {w : WriteOperation} {n k : Bytes} : w.at = (n, k) ↔ w.tableName = n ∧ w.row.key = k := by
  simp [WriteOperation.at]

/-! ## What the writes make of a key -/

/-- The one write on a key decides what becomes of it. -/
theorem netRow_of_mem (clock : Nat → UInt64) {ws : List WriteOperation} (hd : OncePerKey ws) {w : WriteOperation}
    (hw : w ∈ ws) (i : Nat) (r : Option Row) :
    ∃ now, netRow clock w.tableName w.row.key i ws r = rowStep now w r := by
  induction ws generalizing i r with
  | nil => cases hw
  | cons v ws ih =>
    obtain ⟨hv, hd⟩ := List.nodup_cons.1 hd
    rcases List.mem_cons.1 hw with rfl | hw
    · refine ⟨clock i, ?_⟩
      rw [netRow, if_pos ⟨rfl, rfl⟩, netRow_of_notMem]
      intro u hu he
      exact hv (List.mem_map.2 ⟨u, hu, WriteOperation.at_eq.2 he⟩)
    · have hne : ¬ (v.tableName = w.tableName ∧ v.row.key = w.row.key) := fun hc =>
        hv (List.mem_map.2 ⟨w, hw, (WriteOperation.at_eq.2 hc).symm⟩)
      rw [netRow, if_neg hne]
      exact ih hd hw (i + 1) r

/-- A write that leaves a key as it was: a DELETE of what is not there. -/
theorem rowStep_eq_self {now : UInt64} {w : WriteOperation} {r : Option Row} :
    rowStep now w r = r ↔ w.op = .delete ∧ r = none := by
  cases r with
  | none =>
    by_cases hop : w.op = .delete <;> simp [rowStep, hop]
  | some old =>
    by_cases hop : w.op = .delete
    · simp [rowStep, hop]
    · simp only [rowStep, hop, if_false, false_and, iff_false, Option.some.injEq]
      intro he
      have hv := congrArg Row.version he
      simp at hv

/-! ## Which writes are applied -/

theorem present_nil (T : Tables) (n k : Bytes) : present T [] n k = (rowOf T n k).isSome := rfl

theorem applicable_nil {T : Tables} {w : WriteOperation} : applicable T [] w = true ↔
    T[w.tableName]?.isSome = true ∧ (w.op = .insert ∨ (rowOf T w.tableName w.row.key).isSome = true) := by
  simp [applicable, present_nil]

section
variable {env : Env} {ts : UInt64} {clock : Nat → UInt64} {e e₁ e' : Engine} {before ws : List WriteOperation}
  {entries : List WALEntry} {events : List ChangefeedEvent}

theorem After.done {feed : Bool} (h : After clock e before e₁)
    (hdone : applyWrites env feed ts clock before.length e₁ ws = .done e' entries events) : After clock e (before ++ ws) e' := by
  induction ws generalizing before e₁ entries events with
  | nil =>
    cases hdone
    rwa [List.append_nil]
  | cons w ws ih =>
    simp only [applyWrites] at hdone
    split at hdone
    · cases hdone
    · rename_i e₂ old hw
      split at hdone
      · cases hdone
      · split at hdone
        · rename_i hrest
          cases hdone
          have hlen : before.length + 1 = (before ++ [w]).length := by simp
          rw [hlen] at hrest
          have := ih (h.step hw) hrest
          rwa [List.append_assoc] at this
        · cases hdone
        · cases hdone

theorem appliedWrites_append (T : Tables) (before ws : List WriteOperation) :
    ∃ l, appliedWrites T before ws = before ++ l ∧ l.Sublist ws := by
  induction ws generalizing before with
  | nil => exact ⟨[], by simp [appliedWrites], .slnil⟩
  | cons w ws ih =>
    rw [appliedWrites]
    split
    · obtain ⟨l, hl, hs⟩ := ih (before ++ [w])
      exact ⟨w :: l, by rw [hl]; simp, hs.cons_cons w⟩
    · exact ⟨[], by simp, List.nil_sublist _⟩

theorem appliedWrites_cons {T : Tables} {w : WriteOperation} {ws : List WriteOperation} :
    appliedWrites T [] (w :: ws) = [] ↔ applicable T [] w = false := by
  rw [appliedWrites]
  split
  · rename_i happ
    obtain ⟨l, hl, -⟩ := appliedWrites_append T ([] ++ [w]) ws
    rw [hl]
    simp [happ]
  · rename_i hna
    simpa using hna

theorem appliedWrites_head {T : Tables} {w : WriteOperation} {ws l : List WriteOperation}
    (h : appliedWrites T [] ws = w :: l) : applicable T [] w = true := by
  cases ws with
  | nil => cases h
  | cons v ws =>
    rw [appliedWrites] at h
    split at h
    · rename_i happ
      obtain ⟨l', hl, -⟩ := appliedWrites_append T ([] ++ [v]) ws
      rw [hl] at h
      cases h
      exact happ
    · cases h

/-- Nothing that was applied is undone by the rest. -/
theorem netRow_ne_of_applied (clock : Nat → UInt64) {T : Tables} {w : WriteOperation} {ws : List WriteOperation}
    (hd : OncePerKey (w :: ws)) (happ : applicable T [] w = true) :
    netRow clock w.tableName w.row.key 0 (w :: ws) (rowOf T w.tableName w.row.key) ≠ rowOf T w.tableName w.row.key := by
  obtain ⟨now, hnet⟩ := netRow_of_mem clock hd (List.mem_cons_self ..) 0 (rowOf T w.tableName w.row.key)
  rw [hnet]
  intro he
  obtain ⟨hop, hnone⟩ := rowStep_eq_self.1 he
  rcases (applicable_nil.1 happ).2 with hins | hsome
  · rw [hop] at hins
    cases hins
  · rw [hnone] at hsome
    cases hsome

/-- A write can be applied on its own, and its event can be printed. -/
structure Applies (J : JsonLib) (T : Tables) (w : WriteOperation) : Prop where
  table : T[w.tableName]?.isSome = true
  row : w.op = .insert ∨ (rowOf T w.tableName w.row.key).isSome = true
  new : w.op ≠ .delete → (serializeRow J w.row).isSome = true
  old : ∀ r, rowOf T w.tableName w.row.key = some r → (serializeRow J r).isSome = true

theorem isSome_writeEvent (env : Env) (ts : UInt64) (w : WriteOperation) (old : Option Row) (now : UInt64) :
    (writeEvent env true ts w old now).isSome = true ↔
      (w.op ≠ .delete → (serializeRow env.toJsonLib w.row).isSome = true) ∧
      ∀ r, old = some r → (serializeRow env.toJsonLib r).isSome = true := by
  unfold writeEvent
  cases hop : w.op with
  | delete =>
    cases old with
    | none => simp
    | some r => cases hr : serializeRow env.toJsonLib r <;> simp [hr]
  | insert | update =>
    cases hn : serializeRow env.toJsonLib w.row with
    | none => simp
    | some text =>
      cases old with
      | none => simp
      | some r => cases hr : serializeRow env.toJsonLib r <;> simp [hr]

/-- A write on another key changes nothing of it. -/
theorem applies_frame {T T' : Tables} {v : WriteOperation} {J : JsonLib}
    (htab : T'[v.tableName]?.isSome = T[v.tableName]?.isSome)
    (hrow : rowOf T' v.tableName v.row.key = rowOf T v.tableName v.row.key) : Applies J T' v ↔ Applies J T v := by
  constructor
  · rintro ⟨h1, h2, h3, h4⟩
    exact ⟨htab ▸ h1, hrow ▸ h2, h3, hrow ▸ h4⟩
  · rintro ⟨h1, h2, h3, h4⟩
    exact ⟨htab ▸ h1, hrow ▸ h2, h3, hrow ▸ h4⟩

theorem applyWrite_isSome (e : Engine) (w : WriteOperation) (now : UInt64) : (applyWrite e w now).isSome = true ↔
    e.tables[w.tableName]?.isSome = true ∧ (w.op = .insert ∨ (rowOf e.tables w.tableName w.row.key).isSome = true) := by
  rw [← applicable_nil]
  have h : applyWrite e w now = none ↔ applicable e.tables [] w = false := (After.refl (fun _ => 0) e).applicable_iff
  cases ha : applyWrite e w now with
  | none => simp [h.1 ha]
  | some p =>
    cases happ : applicable e.tables [] w with
    | false => rw [h.2 happ] at ha; cases ha
    | true => rfl

/-- **`Commit` applies the whole set exactly when each write applies by itself.** -/
theorem applyWrites_done_iff (env : Env) (ts : UInt64) (clock : Nat → UInt64) (i : Nat) (e : Engine) (hd : OncePerKey ws) :
    (∃ e' entries events, applyWrites env true ts clock i e ws = .done e' entries events) ↔
      ∀ w ∈ ws, Applies env.toJsonLib e.tables w := by
  induction ws generalizing e i with
  | nil => simp [applyWrites]
  | cons w ws ih =>
    obtain ⟨hw, hd⟩ := List.nodup_cons.1 hd
    rw [List.forall_mem_cons]
    cases ha : applyWrite e w (clock i) with
    | none =>
      have hno : ¬ Applies env.toJsonLib e.tables w := fun h => by
        have := (applyWrite_isSome e w (clock i)).2 ⟨h.table, h.row⟩
        rw [ha] at this
        cases this
      simp [applyWrites, ha, hno]
    | some p =>
      obtain ⟨e₂, old⟩ := p
      have hold := applyWrite_old ha
      have happ := (applyWrite_isSome e w (clock i)).1 (by rw [ha]; rfl)
      cases hev : writeEvent env true ts w old (clock i) with
      | none =>
        have hno : ¬ Applies env.toJsonLib e.tables w := fun h => by
          have := (isSome_writeEvent env ts w old (clock i)).2
            ⟨h.new, fun r hr => h.old r (by rw [← hold, hr])⟩
          rw [hev] at this
          cases this
        simp [applyWrites, ha, hev, hno]
      | some evs =>
        have hprint := (isSome_writeEvent env ts w old (clock i)).1 (by rw [hev]; rfl)
        have hyes : Applies env.toJsonLib e.tables w :=
          ⟨happ.1, happ.2, hprint.1, fun r hr => hprint.2 r (by rw [hold, hr])⟩
        -- the other writes are on other keys
        have hrest : (∀ v ∈ ws, Applies env.toJsonLib e₂.tables v) ↔ ∀ v ∈ ws, Applies env.toJsonLib e.tables v := by
          refine forall₂_congr fun v hv => applies_frame ?_ ?_
          · obtain ⟨t, t', ht, htabs, -, -⟩ := applyWrite_eq_some ha
            rw [htabs, OrdMap.getElem?_insert]
            split
            · rename_i hn
              rw [← hn, ht]
              rfl
            · rfl
          · rw [applyWrite_rowOf ha, if_neg]
            intro hc
            exact hw (List.mem_map.2 ⟨v, hv, (WriteOperation.at_eq.2 hc).symm⟩)
        simp only [hyes, true_and]
        rw [← hrest, ← ih (i + 1) e₂ hd]
        simp only [applyWrites, ha, hev]
        constructor
        · rintro ⟨e', entries, events, h⟩
          split at h
          · rename_i hdone
            exact ⟨_, _, _, hdone⟩
          · cases h
          · cases h
        · rintro ⟨e', entries, events, h⟩
          rw [h]
          exact ⟨_, _, _, rfl⟩

/-! ## A commit that returns `false` -/

/-- The tables are as before exactly when nothing was applied. -/
theorem After.same_iff {ap : List WriteOperation} (h : After clock e ap e') (hd : OncePerKey ap)
    (happ : ∀ w l, ap = w :: l → applicable e.tables [] w = true) :
    (∀ n : Bytes, e'.tables[n]?.map (fun t => (t.schema, t.rows)) = e.tables[n]?.map fun t => (t.schema, t.rows)) ↔ ap = [] := by
  constructor
  · intro hsame
    cases hap : ap with
    | nil => rfl
    | cons w l =>
      subst hap
      refine absurd ?_ (netRow_ne_of_applied clock hd (happ w l rfl))
      rw [← h.rows]
      have ht := hsame w.tableName
      simp only [rowOf]
      cases h1 : e'.tables[w.tableName]? <;> cases h0 : e.tables[w.tableName]? <;> simp_all
  · rintro rfl
    exact (h.sameContents_iff.2 fun _ _ => rfl).tables

theorem OncePerKey.sublist {ws ws' : List WriteOperation} (h : OncePerKey ws) (hs : ws'.Sublist ws) : OncePerKey ws' :=
  List.Nodup.sublist (hs.map _) h

/-- A commit that fails leaves the schemas and the changefeed alone, and the rows exactly when its first
write was refused. -/
theorem Store.commit_false {maxLag : Nat} {io : Io} {s s' : Store} (hd : OncePerKey ws)
    (h : s.commit env maxLag io ws = .returned false s') :
    s'.feed = s.feed ∧
    (∀ n : Bytes, s'.engine.tables[n]?.map MemTable.schema = s.engine.tables[n]?.map MemTable.schema) ∧
    (SameData s s' ↔ ∃ w rest, ws = w :: rest ∧ applicable s.engine.tables [] w = false) := by
  simp only [Store.commit, OriginDB.commit, ne_eq, not_true_eq_false, if_false] at h
  cases ws with
  | nil => cases h
  | cons w ws =>
    simp only [reduceCtorEq, if_false] at h
    have hcons : ∀ {b : Prop}, (applicable s.engine.tables [] w = false ↔ b) →
        ((∃ w' rest, w :: ws = w' :: rest ∧ applicable s.engine.tables [] w' = false) ↔ b) := by
      intro b hb
      rw [← hb]
      constructor
      · rintro ⟨w', rest, he, hna⟩
        cases he
        exact hna
      · exact fun hna => ⟨w, ws, rfl, hna⟩
    cases hap : applyWrites env true (s.nextTimestamp + 1 - 1) io.clock 0 s.engine (w :: ws) with
    | done e entries events =>
      rw [hap] at h
      simp only at h
      split at h
      · cases h
      · cases h
        have hafter := (After.refl io.clock s.engine).done hap
        have happ := ((applyWrites_done_iff env _ io.clock 0 s.engine hd).1 ⟨_, _, _, hap⟩) w (by simp)
        have hyes : applicable s.engine.tables [] w = true := applicable_nil.2 ⟨happ.table, happ.row⟩
        have hsame := hafter.same_iff hd fun w' l he => by cases he; exact hyes
        refine ⟨rfl, hafter.schemas, ?_⟩
        rw [hcons (b := False) (by simp [hyes])]
        exact ⟨fun hs => by simpa using hsame.1 hs.tables, False.elim⟩
    | failed e =>
      rw [hap] at h
      cases h
      have hafter := (After.refl io.clock s.engine).failed hap
      obtain ⟨l, hl, hsub⟩ := appliedWrites_append s.engine.tables [] (w :: ws)
      have hsame := hafter.same_iff (by rw [hl]; exact hd.sublist hsub) fun _ _ he => appliedWrites_head he
      refine ⟨rfl, hafter.schemas, ?_⟩
      rw [hcons (b := appliedWrites s.engine.tables [] (w :: ws) = []) appliedWrites_cons.symm]
      exact ⟨fun hs => hsame.1 hs.tables, fun hnil => ⟨hsame.2 hnil, rfl⟩⟩
    | threw e =>
      rw [hap] at h
      cases h

/-! ## Any commit -/

/-- What each write that is applied preserves, a commit preserves, however it ends. -/
theorem applyWrites_rule {R : Engine → Engine → Prop} (hrefl : ∀ e, R e e) (htrans : ∀ {a b c}, R a b → R b c → R a c)
    {ws : List WriteOperation} (hstep : ∀ w ∈ ws, ∀ e e' now old, applyWrite e w now = some (e', old) → R e e') (env : Env)
    (feed : Bool) (ts : UInt64) (clock : Nat → UInt64) (i : Nat) (e : Engine) :
    R e (applyWrites env feed ts clock i e ws).engine := by
  induction ws generalizing i e with
  | nil => exact hrefl e
  | cons w ws ih =>
    rw [applyWrites]
    cases hw : applyWrite e w (clock i) with
    | none => exact hrefl e
    | some p =>
      obtain ⟨e₁, old⟩ := p
      have h1 : R e e₁ := hstep w (by simp) e e₁ (clock i) old hw
      have hrest := ih (fun w' hw' => hstep w' (by simp [hw'])) (i + 1) e₁
      simp only
      cases writeEvent env feed ts w old (clock i) with
      | none => exact h1
      | some evs =>
        simp only
        cases hr : applyWrites env feed ts clock (i + 1) e₁ ws with
        | done e₂ entries events | failed e₂ | threw e₂ =>
          rw [hr] at hrest
          exact htrans h1 hrest

theorem commit_rule {R : Engine → Engine → Prop} (hrefl : ∀ e, R e e) (htrans : ∀ {a b c}, R a b → R b c → R a c)
    {txn : Txn} (hstep : ∀ w ∈ txn.writeSet, ∀ e e' now old, applyWrite e w now = some (e', old) → R e e') (env : Env)
    (feed : Bool) (clock : Nat → UInt64) (e : Engine) : R e ((OriginDB.commit env feed clock e txn).engine e) := by
  have h := applyWrites_rule hrefl htrans hstep env feed txn.timestamp clock 0 e
  unfold OriginDB.commit
  split
  · exact hrefl e
  · split
    · exact hrefl e
    · split <;> rename_i hr <;> rw [hr] at h <;> exact h

theorem applyWrite_schemas {e e' : Engine} {w : WriteOperation} {now : UInt64} {old : Option Row}
    (h : applyWrite e w now = some (e', old)) (n : Bytes) :
    e'.tables[n]?.map MemTable.schema = e.tables[n]?.map MemTable.schema := by
  obtain ⟨t, t', ht, htabs, hs, -⟩ := applyWrite_eq_some h
  rw [htabs, OrdMap.getElem?_insert]
  split
  · rename_i hn
    rw [← hn, ht]
    exact congrArg some hs
  · rfl

theorem applyWrites_schemas (env : Env) (feed : Bool) (ts : UInt64) (clock : Nat → UInt64) (i : Nat) (e : Engine)
    (ws : List WriteOperation) (n : Bytes) :
    (applyWrites env feed ts clock i e ws).engine.tables[n]?.map MemTable.schema = e.tables[n]?.map MemTable.schema :=
  applyWrites_rule (R := fun e e' => e'.tables[n]?.map MemTable.schema = e.tables[n]?.map MemTable.schema) (fun _ => rfl)
    (fun h₁ h₂ => h₂.trans h₁) (fun _ _ _ _ _ _ hw => applyWrite_schemas hw n) env feed ts clock i e

/-- Whatever becomes of a commit, the tables stay what they are. -/
theorem commit_schemas (env : Env) (feed : Bool) (clock : Nat → UInt64) (e : Engine) (txn : Txn) (n : Bytes) :
    ((OriginDB.commit env feed clock e txn).engine e).tables[n]?.map MemTable.schema = e.tables[n]?.map MemTable.schema :=
  commit_rule (R := fun e e' => e'.tables[n]?.map MemTable.schema = e.tables[n]?.map MemTable.schema) (fun _ => rfl)
    (fun h₁ h₂ => h₂.trans h₁) (fun _ _ _ _ _ _ hw => applyWrite_schemas hw n) env feed clock e

/-- A commit leaves a table alone that none of its writes is on. -/
theorem commit_untouched (env : Env) (feed : Bool) (clock : Nat → UInt64) (e : Engine) {txn : Txn} {n : Bytes}
    (h : ∀ w ∈ txn.writeSet, w.tableName ≠ n) :
    ((OriginDB.commit env feed clock e txn).engine e).tables[n]? = e.tables[n]? := by
  refine commit_rule (R := fun e e' => e'.tables[n]? = e.tables[n]?) (fun _ => rfl) (fun h₁ h₂ => h₂.trans h₁) ?_ env feed clock e
  intro w hw e₁ e₂ now old happ
  obtain ⟨t, t', -, htabs, -⟩ := applyWrite_eq_some happ
  rw [htabs, OrdMap.getElem?_insert, if_neg (h w hw)]

/-! ## A commit that returns `true` -/

/-- Where the log holds, a commit succeeds exactly when each write applies by itself. -/
theorem Store.commit_true_iff (maxLag : Nat) {io : Io} {s : Store} (hd : OncePerKey ws) (hio : io.durable = true) :
    (∃ s', s.commit env maxLag io ws = .returned true s') ↔ ∀ w ∈ ws, Applies env.toJsonLib s.engine.tables w := by
  rw [← applyWrites_done_iff env (s.nextTimestamp + 1 - 1) io.clock 0 s.engine hd]
  simp only [Store.commit, OriginDB.commit, ne_eq, not_true_eq_false, if_false]
  cases ws with
  | nil => simp [applyWrites]
  | cons w ws =>
    simp only [reduceCtorEq, if_false]
    cases applyWrites env true (s.nextTimestamp + 1 - 1) io.clock 0 s.engine (w :: ws) <;> simp [hio]

/-- What it leaves in the tables. -/
theorem Store.after_commit {maxLag : Nat} {io : Io} {s s' : Store} (h : s.commit env maxLag io ws = .returned true s') :
    ∃ e, After io.clock s.engine ws e ∧ s'.engine.tables = e.tables := by
  simp only [Store.commit, OriginDB.commit, ne_eq, not_true_eq_false, if_false] at h
  cases ws with
  | nil =>
    cases h
    exact ⟨s.engine, .refl _ _, rfl⟩
  | cons w ws =>
    simp only [reduceCtorEq, if_false] at h
    cases hap : applyWrites env true (s.nextTimestamp + 1 - 1) io.clock 0 s.engine (w :: ws) with
    | done e entries events =>
      rw [hap] at h
      simp only at h
      split at h
      · cases h
        exact ⟨e, (After.refl io.clock s.engine).done hap, rfl⟩
      · cases h
    | failed e =>
      rw [hap] at h
      cases h
    | threw e =>
      rw [hap] at h
      cases h

end

/-! ## What a commit looks at -/

/-- The same outcome, with the same tables. -/
def Called.SameTables {α : Type} : Called α → Called α → Prop
  | .returned a s, .returned b t => a = b ∧ s.engine.tables = t.engine.tables
  | .threw s, .threw t => s.engine.tables = t.engine.tables
  | _, _ => False

def Applied.SameTables : Applied → Applied → Prop
  | .done e _ _, .done e' _ _ | .failed e, .failed e' | .threw e, .threw e' => e.tables = e'.tables
  | _, _ => False

theorem applyWrite_tables {e e' : Engine} (h : e.tables = e'.tables) (w : WriteOperation) (now : UInt64) :
    (applyWrite e w now).map (fun p => (p.1.tables, p.2)) = (applyWrite e' w now).map fun p => (p.1.tables, p.2) := by
  unfold applyWrite
  rw [h]
  cases e'.tables[w.tableName]? with
  | none => rfl
  | some t =>
    cases w.op with
    | insert =>
      simp only
      cases t.insert w.row with
      | some t' => rfl
      | none => cases t.get w.row.key <;> cases t.update w.row.key w.row now <;> rfl
    | update =>
      simp only
      cases t.update w.row.key w.row now <;> rfl
    | delete =>
      simp only
      cases t.delete w.row.key <;> rfl

theorem isSome_writeEvent_ts (env : Env) (ts ts' : UInt64) (w : WriteOperation) (old : Option Row) (now : UInt64) :
    (writeEvent env true ts w old now).isSome = (writeEvent env true ts' w old now).isSome := by
  rw [Bool.eq_iff_iff, isSome_writeEvent, isSome_writeEvent]

theorem applyWrites_sameTables (env : Env) (ts ts' : UInt64) (clock : Nat → UInt64) (i : Nat) {e e' : Engine}
    (h : e.tables = e'.tables) (ws : List WriteOperation) :
    (applyWrites env true ts clock i e ws).SameTables (applyWrites env true ts' clock i e' ws) := by
  induction ws generalizing i e e' with
  | nil => exact h
  | cons w ws ih =>
    have hw := applyWrite_tables h w (clock i)
    rw [applyWrites, applyWrites]
    cases h1 : applyWrite e w (clock i) with
    | none =>
      cases h2 : applyWrite e' w (clock i) with
      | none => exact h
      | some q => rw [h1, h2] at hw; cases hw
    | some p =>
      cases h2 : applyWrite e' w (clock i) with
      | none => rw [h1, h2] at hw; cases hw
      | some q =>
        obtain ⟨e₁, old⟩ := p
        obtain ⟨e₂, old'⟩ := q
        rw [h1, h2] at hw
        simp only [Option.map_some, Option.some.injEq, Prod.mk.injEq] at hw
        obtain ⟨htabs, rfl⟩ := hw
        have hev := isSome_writeEvent_ts env ts ts' w old (clock i)
        simp only
        cases h3 : writeEvent env true ts w old (clock i) with
        | none =>
          cases h4 : writeEvent env true ts' w old (clock i) with
          | none => exact htabs
          | some evs => rw [h3, h4] at hev; cases hev
        | some evs =>
          cases h4 : writeEvent env true ts' w old (clock i) with
          | none => rw [h3, h4] at hev; cases hev
          | some evs' =>
            have hrest := ih (i + 1) htabs
            simp only
            cases h5 : applyWrites env true ts clock (i + 1) e₁ ws <;>
              cases h6 : applyWrites env true ts' clock (i + 1) e₂ ws <;>
              rw [h5, h6] at hrest <;> exact hrest

namespace Store

/-- Where the loops over two write sets end alike, the commits do. -/
theorem commit_sameTables_of_applied {env : Env} {maxLag : Nat} {io : Io} {s t : Store} {w w' : WriteOperation}
    {ws ws' : List WriteOperation}
    (happ : (applyWrites env true (s.nextTimestamp + 1 - 1) io.clock 0 s.engine (w :: ws)).SameTables
      (applyWrites env true (t.nextTimestamp + 1 - 1) io.clock 0 t.engine (w' :: ws'))) :
    (s.commit env maxLag io (w :: ws)).SameTables (t.commit env maxLag io (w' :: ws')) := by
  simp only [commit, OriginDB.commit, ne_eq, not_true_eq_false, if_false, reduceCtorEq]
  cases h1 : applyWrites env true (s.nextTimestamp + 1 - 1) io.clock 0 s.engine (w :: ws) <;>
    cases h2 : applyWrites env true (t.nextTimestamp + 1 - 1) io.clock 0 t.engine (w' :: ws') <;>
    rw [h1, h2] at happ
  case done.done =>
    cases hd : io.durable
    · exact ⟨rfl, happ⟩
    · exact ⟨rfl, happ⟩
  case failed.failed => exact ⟨rfl, happ⟩
  case threw.threw => exact happ
  all_goals exact happ.elim

/-- What a commit does to the tables depends on the tables alone. -/
theorem commit_sameTables (env : Env) (maxLag : Nat) (io : Io) {s t : Store} (h : s.engine.tables = t.engine.tables)
    (ws : List WriteOperation) : (s.commit env maxLag io ws).SameTables (t.commit env maxLag io ws) := by
  cases ws with
  | nil => exact ⟨rfl, h⟩
  | cons w ws => exact commit_sameTables_of_applied (applyWrites_sameTables env _ _ io.clock 0 h (w :: ws))

theorem getTable_congr {s t : Store} (h : s.engine.tables = t.engine.tables) : s.getTable = t.getTable := by
  funext n
  rw [getTable, getTable, h]

theorem get_congr {s t : Store} (h : s.engine.tables = t.engine.tables) : s.get = t.get := by
  funext n k
  rw [get, get, getTable_congr h]

theorem createTable_sameTables (env : Env) {s t : Store} (h : s.engine.tables = t.engine.tables) (schema : TableSchema) :
    (s.createTable env schema).SameTables (t.createTable env schema) := by
  simp only [createTable, OriginDB.createTable, h]
  by_cases hsome : t.engine.tables[schema.name]?.isSome = true
  · simp only [hsome, if_true]
    exact ⟨rfl, h⟩
  · simp only [hsome]
    cases serializeSchema env.toJsonLib schema with
    | none => rfl
    | some data => exact ⟨rfl, rfl⟩

end Store

end OriginDB
