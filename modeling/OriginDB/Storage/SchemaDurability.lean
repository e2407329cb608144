import OriginDB.Storage.CrashSafety
/-!
# Which tables are there after a crash (`storage_engine.cpp:222-270`)

`CreateTable` and `DropTable` change the map of tables, append one record and return `true`, whatever `Append` has
answered. Replaying the log, only their records make tables or take them away.

A crash may come after any step of the calls and of the writer; checkpoints are left out here.
-/
namespace OriginDB

open JsonDoc ByteCodec GuardedReplay Machine

/-! ## Entries and tables -/

/-- Replaying the entry can make a table of this name. -/
def WALEntry.Creates (J : JsonLib) (n : Bytes) (x : WALEntry) : Prop :=
  x.type = .createTable ∧ (deserializeSchema J x.data).map TableSchema.name = some n

/-- Replaying the entry takes the table of this name away. -/
def WALEntry.Drops (n : Bytes) (x : WALEntry) : Prop := x.type = .dropTable ∧ x.tableName = n

section Entries
variable {J : JsonLib} {n : Bytes} {x : WALEntry} {es : List WALEntry} {c : Cell}

theorem apply_entryOp_of_not (hc : ¬ x.Creates J n) (hd : ¬ x.Drops n) : (entryOp J x (n, none)).apply c = c := by
  cases ht : x.type with
  | createTable =>
    simp only [entryOp, ht]
    cases hs : deserializeSchema J x.data with
    | none => rfl
    | some s =>
      have hne : n ≠ s.name := fun he => hc ⟨ht, by rw [hs, he]; rfl⟩
      simp only
      rw [if_neg hne]
      rfl
  | dropTable =>
    have hne : n ≠ x.tableName := fun he => hd ⟨ht, he.symm⟩
    simp only [entryOp, ht]
    rw [if_neg hne]
    rfl
  | insert =>
    simp only [entryOp, ht]
    cases decodeRow x.data with
    | none => rfl
    | some row =>
      simp only
      rw [if_neg (by simp)]
      rfl
  | update =>
    simp only [entryOp, ht]
    cases decodeRow x.data with
    | none => rfl
    | some row =>
      simp only
      rw [if_neg (by simp)]
      rfl
  | delete =>
    simp only [entryOp, ht]
    rw [if_neg (by simp)]
    rfl
  | _ => simp only [entryOp, ht]; rfl

theorem apply_entryOp_creates (hc : x.Creates J n) : ((entryOp J x (n, none)).apply c).isAbsent = false := by
  obtain ⟨ht, hname⟩ := hc
  obtain ⟨s, hs, rfl⟩ := Option.map_eq_some_iff.1 hname
  have hop : entryOp J x (s.name, none) = ⟨Cell.isAbsent, Cell.fresh s none⟩ := by simp [entryOp, ht, hs]
  rw [hop]
  cases hab : c.isAbsent with
  | true =>
    rw [Assign.apply_pos hab]
    rfl
  | false =>
    rw [Assign.apply_neg hab]
    exact hab

theorem apply_entryOp_drops (hd : x.Drops n) : ((entryOp J x (n, none)).apply c).isAbsent = true := by
  obtain ⟨ht, rfl⟩ := hd
  simp only [entryOp, ht, if_true]
  cases hab : c.isAbsent with
  | true =>
    rw [Assign.apply_neg (by simp [hab])]
    exact hab
  | false =>
    rw [Assign.apply_pos (by simp [hab])]
    rfl

/-- A table stays while nothing drops it. -/
theorem there_replay (hc : c.isAbsent = false) (h : ∀ x ∈ es, ¬ x.Drops n) :
    (GuardedReplay.replay c (logOps J es (n, none))).isAbsent = false := by
  induction es generalizing c with
  | nil => exact hc
  | cons x es ih =>
    have hone : ((entryOp J x (n, none)).apply c).isAbsent = false := by
      by_cases hx : x.Creates J n
      · exact apply_entryOp_creates hx
      · rw [apply_entryOp_of_not hx (h x (by simp))]
        exact hc
    exact ih hone fun y hy => h y (by simp [hy])

/-- And is gone while nothing creates it. -/
theorem gone_replay (hc : c.isAbsent = true) (h : ∀ x ∈ es, ¬ x.Creates J n) :
    (GuardedReplay.replay c (logOps J es (n, none))).isAbsent = true := by
  induction es generalizing c with
  | nil => exact hc
  | cons x es ih =>
    have hone : ((entryOp J x (n, none)).apply c).isAbsent = true := by
      by_cases hx : x.Drops n
      · exact apply_entryOp_drops hx
      · rw [apply_entryOp_of_not (h x (by simp)) hx]
        exact hc
    exact ih hone fun y hy => h y (by simp [hy])

theorem isAbsent_view (T : Tables) (n : Bytes) : ((view T).cell (n, none)).isAbsent = !T[n]?.isSome := by
  cases ht : T[n]? with
  | none => rw [cell_of_no_table ht]; rfl
  | some t => simp [DbOf.cell, view_eq_some ht, Cell.isAbsent]

end Entries

/-! ## Changes and batches -/

def Change.isDdl : Change → Bool
  | .create _ | .drop _ => true
  | .commit _ | .barrier => false

/-- The batch is that of the change, as far as tables go. -/
def Stands (J : JsonLib) : Change → List WALEntry → Prop
  | .create schema, b => ∃ x, b = [x] ∧ x.type = .createTable ∧ deserializeSchema J x.data = some schema
  | .drop n, b => ∃ x, b = [x] ∧ x.type = .dropTable ∧ x.tableName = n
  | .commit _, b => ∀ x ∈ b, x.type ≠ .createTable ∧ x.type ≠ .dropTable
  | .barrier, b => b = []

section Stands
variable {J : JsonLib} {c : Change} {b : List WALEntry} {n : Bytes}

theorem Stands.drops (h : Stands J c b) {x : WALEntry} (hx : x ∈ b) (hd : x.Drops n) : c = .drop n := by
  cases c with
  | create schema =>
    obtain ⟨y, rfl, ht, -⟩ := h
    rw [List.mem_singleton.1 hx] at hd
    rw [hd.1] at ht
    cases ht
  | drop m =>
    obtain ⟨y, rfl, -, rfl⟩ := h
    rw [List.mem_singleton.1 hx] at hd
    rw [hd.2]
  | commit ws => exact absurd hd.1 (h x hx).2
  | barrier =>
    rw [show b = [] from h] at hx
    cases hx

theorem Stands.creates (h : Stands J c b) {x : WALEntry} (hx : x ∈ b) (hc : x.Creates J n) :
    ∃ schema : TableSchema, c = .create schema ∧ schema.name = n := by
  cases c with
  | create schema =>
    obtain ⟨y, rfl, -, hs⟩ := h
    rw [List.mem_singleton.1 hx] at hc
    have hname := hc.2
    rw [hs, Option.map_some, Option.some.injEq] at hname
    exact ⟨schema, rfl, hname⟩
  | drop m =>
    obtain ⟨y, rfl, ht, -⟩ := h
    rw [List.mem_singleton.1 hx] at hc
    rw [hc.1] at ht
    cases ht
  | commit ws => exact absurd hc.1 (h x hx).1
  | barrier =>
    rw [show b = [] from h] at hx
    cases hx

theorem mem_assign {next ts : UInt64} {es : List WALEntry} {x : WALEntry} (hx : x ∈ Wal.assign next ts es) :
    ∃ y ∈ es, x.type = y.type ∧ x.tableName = y.tableName ∧ x.data = y.data := by
  induction es generalizing next with
  | nil => cases hx
  | cons y es ih =>
    rcases List.mem_cons.1 hx with rfl | hx
    · exact ⟨y, by simp, rfl, rfl, rfl⟩
    · obtain ⟨z, hz, he⟩ := ih hx
      exact ⟨z, by simp [hz], he⟩

theorem Stands.assign (h : Stands J c b) (next ts : UInt64) : Stands J c (Wal.assign next ts b) := by
  cases c with
  | create schema =>
    obtain ⟨y, rfl, ht, hs⟩ := h
    exact ⟨_, rfl, ht, hs⟩
  | drop m =>
    obtain ⟨y, rfl, ht, hn⟩ := h
    exact ⟨_, rfl, ht, hn⟩
  | commit ws =>
    intro x hx
    obtain ⟨y, hy, ht, -⟩ := mem_assign hx
    rw [ht]
    exact h y hy
  | barrier =>
    rw [show b = [] from h]
    rfl

theorem Logs.stands {env : Env} {feed : Bool} {e e' : Engine} {entries : List WALEntry} (h : Logs env feed e c entries e') :
    Stands env.toJsonLib c entries := by
  cases h with
  | commit h =>
    rw [(view_applyWrites h).2]
    intro x hx
    obtain ⟨w, -, rfl⟩ := List.mem_map.1 hx
    cases hop : w.op <;> simp [writeEntry, hop, WriteOp.entryType]
  | create h =>
    obtain ⟨-, -, hdata, hentry⟩ := view_createTable h
    exact ⟨_, rfl, by rw [hentry], deserializeSchema_serializeSchema env.toJsonLib hdata⟩
  | drop h =>
    obtain ⟨-, -, rfl⟩ := view_dropTable h
    exact ⟨_, rfl, rfl, rfl⟩

end Stands

namespace Server

/-! ## Calls and the writer -/

/-- The steps of `CreateTable`, `DropTable` and `Commit`, and those of the writer. -/
def Label.ofCall : Label → Bool
  | .commit _ _ _ | .createTable _ _ | .dropTable _ _ | .ddlDone | .writer _ => true
  | _ => false

/-- The condition: `CreateTable` and `DropTable` return only once their record is acknowledged, the writer takes no
further drain once one has failed, and what is logged can be read back. -/
def AckedDdl (env : Env) (feed : Bool) (s : Server) (l : Label) : Prop :=
  (s.wal.fatal = false → s.wal.Accepts (batchOf env feed s l)) ∧
  match l with
  | .ddlDone =>
    match s.lock with
    | .ddl i _ => s.wal.promises[i]? = some (some true)
    | _ => True
  | .writer l => s.wal.Permitted l
  | _ => True

instance (env : Env) (feed : Bool) (s : Server) (l : Label) : Decidable (AckedDdl env feed s l) :=
  match l with
  | .ddlDone =>
    have : Decidable (match s.lock with
        | .ddl i _ => s.wal.promises[i]? = some (some true)
        | _ => True) := match s.lock with
      | .ddl i _ => inferInstanceAs (Decidable (s.wal.promises[i]? = some (some true)))
      | .free | .serialised _ _ | .tmpWritten _ | .renamed | .draining _ | .drained | .truncated => isTrue trivial
    inferInstanceAs (Decidable (_ ∧ _))
  | .writer wl => inferInstanceAs (Decidable ((_ → _) ∧ s.wal.Permitted wl))
  | .commit _ _ _ | .createTable _ _ | .dropTable _ _ | .serialise | .writeTmp _ | .writeTmpFails | .rename _ | .drain
  | .drained | .truncate _ | .reopen _ _ | .flush | .syncSnap | .syncDir => inferInstanceAs (Decidable ((_ → _) ∧ True))

/-- The call behind change `i` has returned. -/
def Returned (s : Server) (i : Nat) : Prop := ∀ created, s.lock ≠ .ddl i created

/-- Tables whose creation returned are there unless dropped since, and tables whose dropping returned are not unless
created since. -/
structure SchemaKept (s : Server) (T : Tables) : Prop where
  created : ∀ (i : Nat) (schema : TableSchema), s.changes[i]? = some (.create schema) → s.Returned i →
    (∀ j, i < j → s.changes[j]? ≠ some (.drop schema.name)) → T[schema.name]?.isSome = true
  dropped : ∀ (i : Nat) (name : Bytes), s.changes[i]? = some (.drop name) → s.Returned i →
    (∀ (j : Nat) (schema : TableSchema), i < j → s.changes[j]? = some (.create schema) → schema.name ≠ name) → T[name]? = none

/-! ## The invariant -/

/-- The log was opened empty, each change has its batch or was refused, and tables were changed only by what is
acknowledged or still waited for. -/
structure DdlInv (env : Env) (snap : Option Bytes) (s : Server) (k : Nat) : Prop where
  opened : Wal.Opened kWalMagic s.wal k
  length : s.changes.length = s.wal.batches.length
  stands : ∀ (i : Nat) (c : Change) (b : List WALEntry), s.changes[i]? = some c → s.wal.batches[i]? = some b →
    Stands env.toJsonLib c b ∨ (b = [] ∧ k ≤ i ∧ s.wal.Failed k)
  acked : ∀ (i : Nat) (c : Change), s.changes[i]? = some c → c.isDdl = true → i < k ∨ ∃ created, s.lock = .ddl i created
  snap : snapText s.snapFile = snap

section
variable {env : Env} {mode : SyncMode} {feed : Bool} {snap : Option Bytes} {s s' : Server} {l : Label} {k : Nat}

/-- `s` once a batch has been appended. -/
def appended (s : Server) (c : Change) (entries : List WALEntry) (ts : UInt64) (e : Engine) (lock : Lock) : Server :=
  { s with engine := e, wal := s.wal.appendBatchAsync entries ts, lock := lock, changes := s.changes ++ [c] }

/-- **What a call does**: nothing that is logged, or it appends a batch, or it returns. -/
theorem call_cases (hl : l.ofCall = true) (hstep : step env mode feed s l = some s') :
    (∃ e', s.lock = .free ∧ s' = { s with engine := e' }) ∨
    (∃ c ts e' lock, s.lock = .free ∧ s' = s.appended c (batchOf env feed s l) ts e' lock ∧
      Stands env.toJsonLib c (batchOf env feed s l) ∧ (c.isDdl = true → ∃ created, lock = .ddl s.wal.promises.length created)) ∨
    (∃ i created e', l = .ddlDone ∧ s.lock = .ddl i created ∧ s' = { s with engine := e', lock := .free }) ∨
    (∃ wl w, l = .writer wl ∧ byWriter wl = true ∧ s.wal.step mode wl = some w ∧ s' = { s with wal := w }) := by
  cases l with
  | commit txn clock ts =>
    simp only [Server.step] at hstep
    split at hstep
    · rename_i hlock
      cases hr : OriginDB.commit env feed clock s.engine txn with
      | submitted e' entries events =>
        rw [hr] at hstep
        cases hstep
        have hb : batchOf env feed s (.commit txn clock ts) = entries := by simp [batchOf, hr, CommitResult.entries]
        have hlogs : Logs env feed s.engine (.commit txn.writeSet) entries e' := .commit (commit_spec.1 _ _ _ hr)
        refine Or.inr (Or.inl ⟨.commit txn.writeSet, ts, e', s.lock, hlock, ?_, ?_, by simp [Change.isDdl]⟩)
        · rw [hb]
          rfl
        · rw [hb]
          exact hlogs.stands
      | rejected e' | threw e' | notActive | nothingToWrite =>
        rw [hr] at hstep
        cases hstep
        exact Or.inl ⟨_, hlock, rfl⟩
    · cases hstep
  | createTable schema ts =>
    simp only [Server.step] at hstep
    split at hstep
    · rename_i hlock
      cases hr : OriginDB.createTable env.toJsonLib s.engine schema with
      | logged e' entry =>
        rw [hr] at hstep
        cases hstep
        have hb : batchOf env feed s (.createTable schema ts) = [entry] := by simp [batchOf, hr]
        have hlogs : Logs env feed s.engine (.create schema) [entry] e' := .create hr
        refine Or.inr (Or.inl ⟨.create schema, ts, e', _, hlock, ?_, ?_, fun _ => ⟨true, rfl⟩⟩)
        · rw [hb]
          rfl
        · rw [hb]
          exact hlogs.stands
      | «exists» | threw e' =>
        rw [hr] at hstep
        cases hstep
        exact Or.inl ⟨_, hlock, rfl⟩
    · cases hstep
  | dropTable name ts =>
    simp only [Server.step] at hstep
    split at hstep
    · rename_i hlock
      cases hr : OriginDB.dropTable s.engine name with
      | none =>
        rw [hr] at hstep
        cases hstep
        exact Or.inl ⟨_, hlock, rfl⟩
      | some pr =>
        obtain ⟨e', entry⟩ := pr
        rw [hr] at hstep
        cases hstep
        have hb : batchOf env feed s (.dropTable name ts) = [entry] := by simp [batchOf, hr]
        have hlogs : Logs env feed s.engine (.drop name) [entry] e' := .drop hr
        refine Or.inr (Or.inl ⟨.drop name, ts, e', _, hlock, ?_, ?_, fun _ => ⟨false, rfl⟩⟩)
        · rw [hb]
          rfl
        · rw [hb]
          exact hlogs.stands
    · cases hstep
  | ddlDone =>
    simp only [Server.step] at hstep
    split at hstep
    · rename_i i created hlock
      split at hstep
      · cases hstep
        exact Or.inr (Or.inr (Or.inl ⟨i, created, _, rfl, hlock, rfl⟩))
      · cases hstep
    · cases hstep
  | writer wl =>
    obtain ⟨hby, w, hw, he⟩ := step_writer hstep
    exact Or.inr (Or.inr (Or.inr ⟨wl, w, rfl, hby, hw, he⟩))
  | _ => cases hl

/-- A step of the log; after a failure nothing more is acknowledged. -/
theorem opened_step {F : Bytes} {w w' : Wal} {wl : Wal.Label} (h : Wal.Opened F w k) (hp : w.Permitted wl)
    (hstep : w.step mode wl = some w') :
    ∃ k', k ≤ k' ∧ Wal.Opened F w' k' ∧ (w.Failed k → k' = k ∧ w'.Failed k) := by
  obtain ⟨hbase, horigin, -⟩ := Wal.step_frame hstep
  have hrec := h.recorded.step hp hstep
  rcases h.inv with ⟨q, hs⟩ | hf
  · obtain ⟨k', hk, hinv⟩ := h.inv.step hp hstep
    refine ⟨k', hk, ⟨hinv, hrec, hbase.trans h.base, horigin.trans h.origin⟩, fun hf => ?_⟩
    have hno := hs.not_failed
    rw [hf.failed] at hno
    cases hno
  · have hf' := (hf.step hp hstep).1
    exact ⟨k, Nat.le_refl k, ⟨hf'.inv, hrec, hbase.trans h.base, horigin.trans h.origin⟩, fun _ => ⟨rfl, hf'⟩⟩

theorem DdlInv.boot (h : start env snap = some s) : DdlInv env snap s 0 := by
  obtain ⟨e, -, rfl⟩ := Option.map_eq_some_iff.1 h
  refine ⟨Wal.opened_walInitialize [] 8, rfl, fun i c b hc => ?_, fun i c hc => ?_, ?_⟩
  · simp at hc
  · simp at hc
  · cases snap <;> rfl

theorem getElem?_concat_last {α : Type} {xs : List α} {x y : α} {i : Nat} (hi : ¬ i < xs.length) (h : (xs ++ [x])[i]? = some y) :
    i = xs.length ∧ y = x := by
  rw [List.getElem?_append_right (by omega), List.getElem?_singleton] at h
  split at h
  · cases h
    exact ⟨by omega, rfl⟩
  · cases h

/-- The batch that goes with one more change. -/
theorem DdlInv.append (h : DdlInv env snap s k) (hlock : s.lock = .free) {c : Change} {entries : List WALEntry} {ts : UInt64}
    {e' : Engine} {lock : Lock} (hacc : s.wal.fatal = false → s.wal.Accepts entries) (hstands : Stands env.toJsonLib c entries)
    (hddl : c.isDdl = true → ∃ created, lock = .ddl s.wal.promises.length created) :
    ∃ k', DdlInv env snap (s.appended c entries ts e' lock) k' := by
  have hperm : s.wal.Permitted (.append entries ts) := hacc
  have hstep : s.wal.step .none (.append entries ts) = some (s.wal.appendBatchAsync entries ts) := rfl
  obtain ⟨k', hk, hopened, hfailed⟩ := opened_step h.opened hperm hstep
  -- what is appended stands for the change, or was refused after a failure
  obtain ⟨b, hb, hnew⟩ : ∃ b, (s.wal.appendBatchAsync entries ts).batches = s.wal.batches ++ [b] ∧
      (Stands env.toJsonLib c b ∨ (b = [] ∧ s.wal.Failed k)) := by
    cases hfatal : s.wal.fatal with
    | false => exact ⟨_, Wal.appendBatchAsync_batches hfatal entries ts, Or.inl (hstands.assign _ _)⟩
    | true =>
      refine ⟨[], by rw [Wal.appendBatchAsync, if_pos hfatal], Or.inr ⟨rfl, ?_⟩⟩
      rcases h.opened.inv with ⟨q, hs⟩ | hf
      · rw [hs.fatal] at hfatal
        cases hfatal
      · exact hf
  refine ⟨k', hopened, ?_, fun i c' b' hc' hb' => ?_, fun i c' hc' hisDdl => ?_, h.snap⟩
  · show (s.changes ++ [c]).length = (s.wal.appendBatchAsync entries ts).batches.length
    rw [hb, List.length_append, List.length_append, h.length]
    rfl
  · have hc₁ : (s.changes ++ [c])[i]? = some c' := hc'
    have hb₁ : (s.wal.appendBatchAsync entries ts).batches[i]? = some b' := hb'
    rw [hb] at hb₁
    by_cases hi : i < s.changes.length
    · rw [List.getElem?_append_left hi] at hc₁
      rw [List.getElem?_append_left (h.length ▸ hi)] at hb₁
      rcases h.stands i c' b' hc₁ hb₁ with hold | ⟨hnil, hki, hf⟩
      · exact Or.inl hold
      · obtain ⟨rfl, hf'⟩ := hfailed hf
        exact Or.inr ⟨hnil, hki, hf'⟩
    · obtain ⟨-, rfl⟩ := getElem?_concat_last (by rw [← h.length]; exact hi) hb₁
      obtain ⟨rfl, rfl⟩ := getElem?_concat_last hi hc₁
      rcases hnew with hnew | ⟨hnil, hf⟩
      · exact Or.inl hnew
      · obtain ⟨rfl, hf'⟩ := hfailed hf
        have hlt := hf.acked_lt
        exact Or.inr ⟨hnil, by rw [h.length]; omega, hf'⟩
  · have hc₁ : (s.changes ++ [c])[i]? = some c' := hc'
    by_cases hi : i < s.changes.length
    · rw [List.getElem?_append_left hi] at hc₁
      rcases h.acked i c' hc₁ hisDdl with hlt | ⟨created, hheld⟩
      · exact Or.inl (by omega)
      · rw [hlock] at hheld
        cases hheld
    · obtain ⟨rfl, rfl⟩ := getElem?_concat_last hi hc₁
      obtain ⟨created, hheld⟩ := hddl hisDdl
      rw [h.length, ← h.opened.inv.length]
      exact Or.inr ⟨created, hheld⟩

theorem DdlInv.step (h : DdlInv env snap s k) (hl : l.ofCall = true) (hok : AckedDdl env feed s l)
    (hstep : step env mode feed s l = some s') : ∃ k', DdlInv env snap s' k' := by
  rcases call_cases hl hstep with ⟨e', -, rfl⟩ | ⟨c, ts, e', lock, hlock, rfl, hstands, hddl⟩ | ⟨i, created, e', rfl, hlock, rfl⟩ |
    ⟨wl, w, rfl, hby, hw, rfl⟩
  · exact ⟨k, h.opened, h.length, h.stands, h.acked, h.snap⟩
  · exact h.append hlock hok.1 hstands hddl
  · refine ⟨k, h.opened, h.length, h.stands, fun j c hc hddl => ?_, h.snap⟩
    rcases h.acked j c hc hddl with hj | ⟨created', hheld⟩
    · exact Or.inl hj
    · rw [hlock] at hheld
      cases hheld
      have hacked := hok.2
      simp only [hlock] at hacked
      exact Or.inl ((h.opened.inv.acked_iff i).1 hacked)
  · obtain ⟨k', hk, hopened, hfailed⟩ := opened_step h.opened hok.2 hw
    obtain ⟨hbatches, -⟩ := writer_frame hby hw
    refine ⟨k', hopened, ?_, fun i c b hc hb => ?_, fun i c hc hddl => ?_, h.snap⟩
    · rw [hbatches]
      exact h.length
    · rw [hbatches] at hb
      rcases h.stands i c b hc hb with hstands | ⟨hnil, hki, hf⟩
      · exact Or.inl hstands
      · obtain ⟨rfl, hf'⟩ := hfailed hf
        exact Or.inr ⟨hnil, hki, hf'⟩
    · rcases h.acked i c hc hddl with hi | hheld
      · exact Or.inl (by omega)
      · exact Or.inr hheld

/-! ## What is read back -/

/-- The file is what it was opened with, and a beginning of what was enqueued. -/
theorem opened_within {F : Bytes} {w : Wal} (h : Wal.Opened F w k) : w.file <+: F ++ recordsBytes w.batches.flatten := by
  have hspan : w.span 0 w.batches.length = recordsBytes w.batches.flatten := by
    rw [Wal.span, List.take_length, List.drop_zero]
  rw [← h.origin, ← hspan]
  rcases h.inv with ⟨q, hs⟩ | hf
  · have hcontent := hs.content
    rw [h.base] at hcontent
    exact List.IsPrefix.trans ⟨_, hcontent⟩ ((List.prefix_append_right_inj _).2 (Wal.span_mono hs.taken_le))
  · have hwithin := hf.within
    rwa [h.base] at hwithin

/-- The file holds the acknowledged batches, and after them a beginning of the others. -/
theorem DdlInv.readAll_eq (h : DdlInv env snap s k) : ∃ rest, rest <+: (s.wal.batches.drop k).flatten ∧
    readAll s.wal.file = (s.wal.batches.take k).flatten ++ rest := by
  have hmagic : readAll kWalMagic = [] := rfl
  have hkept := h.opened.acked_prefix wellFramed_magic
  rw [hmagic, List.nil_append] at hkept
  have hrec : ∀ x ∈ s.wal.batches.flatten, x.Recorded := by
    intro x hx
    obtain ⟨b, hb, hx⟩ := List.mem_flatten.1 hx
    exact h.opened.recorded b hb x hx
  have hread := readAll_of_within hrec (opened_within h.opened)
  obtain ⟨rest, hrest⟩ := hkept
  have hle : (s.wal.batches.take k).flatten ++ rest <+: (s.wal.batches.take k).flatten ++ (s.wal.batches.drop k).flatten := by
    rw [hrest, hread, ← List.flatten_append, List.take_append_drop]
    exact List.take_prefix _ _
  exact ⟨rest, (List.prefix_append_right_inj _).1 hle, hrest.symm⟩

/-- What is read after the batch of an acknowledged change comes from later batches. -/
theorem DdlInv.readAll_split (h : DdlInv env snap s k) {i : Nat} (hi : i < k) {c : Change} (hc : s.changes[i]? = some c) :
    ∃ b before later, Stands env.toJsonLib c b ∧ readAll s.wal.file = before ++ b ++ later ∧
      ∀ x ∈ later, ∃ j c' b', i < j ∧ s.changes[j]? = some c' ∧ x ∈ b' ∧ Stands env.toJsonLib c' b' := by
  obtain ⟨rest, hrest, hread⟩ := h.readAll_eq
  have hlt : i < s.wal.batches.length := by
    rw [← h.length]
    exact (List.getElem?_eq_some_iff.1 hc).1
  have hb : s.wal.batches[i]? = some s.wal.batches[i] := List.getElem?_eq_getElem hlt
  have hstands : Stands env.toJsonLib c s.wal.batches[i] := by
    rcases h.stands i c _ hc hb with hstands | ⟨-, hki, -⟩
    · exact hstands
    · omega
  refine ⟨s.wal.batches[i], (s.wal.batches.take i).flatten, ((s.wal.batches.take k).drop (i + 1)).flatten ++ rest, hstands, ?_, fun x hx => ?_⟩
  · have hik : i < (s.wal.batches.take k).length := by simp; omega
    have hsplit := congrArg List.flatten (List.take_append_drop i (s.wal.batches.take k))
    rw [List.take_take, Nat.min_eq_left (by omega), List.drop_eq_getElem_cons hik, List.getElem_take, List.flatten_append,
      List.flatten_cons] at hsplit
    rw [hread, ← hsplit]
    simp only [List.append_assoc]
  · have hmem : x ∈ (s.wal.batches.drop (i + 1)).flatten := by
      rcases List.mem_append.1 hx with hx | hx
      · obtain ⟨b', hb', hx⟩ := List.mem_flatten.1 hx
        exact List.mem_flatten.2 ⟨b', (List.take_prefix k s.wal.batches).drop (i + 1) |>.subset hb', hx⟩
      · obtain ⟨b', hb', hx⟩ := List.mem_flatten.1 (hrest.subset hx)
        exact List.mem_flatten.2 ⟨b', List.drop_subset_drop_left s.wal.batches (by omega) hb', hx⟩
    obtain ⟨b', hb', hxb⟩ := List.mem_flatten.1 hmem
    obtain ⟨n, hn⟩ := List.mem_iff_getElem?.1 hb'
    rw [List.getElem?_drop] at hn
    have hjlt : i + 1 + n < s.changes.length := by
      rw [h.length]
      exact (List.getElem?_eq_some_iff.1 hn).1
    refine ⟨i + 1 + n, _, b', by omega, List.getElem?_eq_getElem hjlt, hxb, ?_⟩
    rcases h.stands _ _ b' (List.getElem?_eq_getElem hjlt) hn with hstands' | ⟨hnil, -⟩
    · exact hstands'
    · rw [hnil] at hxb
      cases hxb

/-- **What recovery makes of the tables.** -/
theorem DdlInv.recovered (h : DdlInv env snap s k) (clock : Nat → UInt64) {db : Db} (hload : Loads env.toJsonLib snap db) :
    ∃ e, Server.recovered env clock s = some e ∧ s.SchemaKept e.tables := by
  obtain ⟨e, he, hcell⟩ := cell_recover_replay clock s.wal.file hload
  rw [← h.snap] at he
  refine ⟨e, he, fun i schema hc hreturned hlater => ?_, fun i name hc hreturned hlater => ?_⟩
  · have hi : i < k := by
      rcases h.acked i _ hc rfl with hi | ⟨created, hheld⟩
      · exact hi
      · exact absurd hheld (hreturned created)
    obtain ⟨b, before, later, ⟨x, rfl, ht, hs⟩, hread, hcome⟩ := h.readAll_split hi hc
    have hcreates : x.Creates env.toJsonLib schema.name := ⟨ht, by rw [hs]; rfl⟩
    have hthere : ((view e.tables).cell (schema.name, none)).isAbsent = false := by
      rw [hcell, cellAfter, hread, logOps_append, logOps_append, GuardedReplay.replay_append, GuardedReplay.replay_append]
      refine there_replay (apply_entryOp_creates hcreates) fun y hy hdrops => ?_
      obtain ⟨j, c', b', hij, hc', hyb, hstands⟩ := hcome y hy
      rw [hstands.drops hyb hdrops] at hc'
      exact hlater j hij hc'
    rw [isAbsent_view] at hthere
    simpa using hthere
  · have hi : i < k := by
      rcases h.acked i _ hc rfl with hi | ⟨created, hheld⟩
      · exact hi
      · exact absurd hheld (hreturned created)
    obtain ⟨b, before, later, ⟨x, rfl, ht, hn⟩, hread, hcome⟩ := h.readAll_split hi hc
    have hdrops : x.Drops name := ⟨ht, hn⟩
    have hgone : ((view e.tables).cell (name, none)).isAbsent = true := by
      rw [hcell, cellAfter, hread, logOps_append, logOps_append, GuardedReplay.replay_append, GuardedReplay.replay_append]
      refine gone_replay (apply_entryOp_drops hdrops) fun y hy hcreates => ?_
      obtain ⟨j, c', b', hij, hc', hyb, hstands⟩ := hcome y hy
      obtain ⟨schema, rfl, hname⟩ := hstands.creates hyb hcreates
      exact hlater j schema hij hc' hname
    rwa [isAbsent_view, Bool.not_eq_true', Option.isSome_eq_false_iff, Option.isNone_iff_eq_none] at hgone

end

/-- **An acknowledged schema change is durable** in every run in which `CreateTable` and `DropTable` return only once
their record is acknowledged, and the writer stops at its first failure. -/
theorem schema_durable (env : Env) (mode : SyncMode) (feed : Bool) (snap : Option Bytes) (s₀ s : Server) (ls : List Label)
    (clock : Nat → UInt64) (h0 : start env snap = some s₀) (hcalls : ∀ l ∈ ls, l.ofCall = true)
    (hok : Allowed (step env mode feed) (AckedDdl env feed) s₀ ls) (hrun : run (step env mode feed) s₀ ls = some s) :
    ∃ e, recovered env clock s = some e ∧ s.SchemaKept e.tables := by
  have hboth : Allowed (step env mode feed) (fun s l => l.ofCall = true ∧ AckedDdl env feed s l) s₀ ls :=
    (Allowed.of_forall fun l hl _ => hcalls l hl).and hok
  obtain ⟨k, h⟩ := run_invariant (fun s => ∃ k, DdlInv env snap s k)
    (fun s l s' ⟨k, h⟩ hl hstep => h.step hl.1 hl.2 hstep) ⟨0, DdlInv.boot h0⟩ hboth hrun
  obtain ⟨e₀, he₀, -⟩ := Option.map_eq_some_iff.1 h0
  exact h.recovered clock ⟨e₀, he₀, rfl⟩

theorem schema_durable_createdT : ∃ s e, run (step tEnv .fsync false) tStart createdT = some s ∧
    recovered tEnv (fun _ => 0) s = some e ∧ s.changes = [.create tSchema] ∧ s.SchemaKept e.tables := by
  have hfacts : (run (step tEnv .fsync false) tStart createdT).map changes = some [.create tSchema] := by decide
  obtain ⟨s, hrun, hchanges⟩ := Option.map_eq_some_iff.1 hfacts
  obtain ⟨e, he, hkept⟩ := schema_durable tEnv .fsync false none tStart s createdT (fun _ => 0) rfl (by decide) (by decide) hrun
  exact ⟨s, e, hrun, he, hchanges, hkept⟩

/-- The first `write()` fails, and `CREATE TABLE t` returns `true`. -/
def createdInVain : List Label :=
  [.createTable tSchema 0, .writer .swap, .writer .writeError, .writer .fulfil, .writer .endDrain, .ddlDone]

theorem schema_lost : ∃ s e, run (step tEnv .fsync false) tStart createdInVain = some s ∧ start tEnv none = some tStart ∧
    (∀ l ∈ createdInVain, l.ofCall = true) ∧ s.engine.tables[str "t"]?.isSome = true ∧ recovered tEnv (fun _ => 0) s = some e ∧
    ¬ s.SchemaKept e.tables := by
  have hfacts : (run (step tEnv .fsync false) tStart createdInVain).bind (fun s => (recovered tEnv (fun _ => 0) s).map fun e =>
      decide (s.changes = [.create tSchema] ∧ s.lock = .free ∧ s.engine.tables[str "t"]?.isSome = true ∧
        e.tables[str "t"]?.isSome = false)) = some true := by
    decide
  obtain ⟨s, hrun, hs⟩ := Option.bind_eq_some_iff.1 hfacts
  obtain ⟨e, he, hs⟩ := Option.map_eq_some_iff.1 hs
  obtain ⟨hchanges, hlock, hmemory, hgone⟩ := of_decide_eq_true hs
  refine ⟨s, e, hrun, rfl, by decide, hmemory, he, fun h => ?_⟩
  have hthere := h.created 0 tSchema (by rw [hchanges]; rfl) (fun created hheld => by rw [hlock] at hheld; cases hheld) fun j hj => by
    rw [hchanges, List.getElem?_eq_none (by simp; omega)]
    simp
  have hname : tSchema.name = str "t" := rfl
  rw [hname, hgone] at hthere
  cases hthere

end Server

end OriginDB
