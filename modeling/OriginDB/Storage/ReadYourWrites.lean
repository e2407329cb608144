import OriginDB.Lib.Machine
import OriginDB.Storage.WriteSets
/-!
# What a transaction reads of its own writes (`transaction_impl.cpp:24-89`)

The write set is a list to which every call appends, and `Commit` applies it in order, so the last write on a key decides
what the key holds (`commit_last`). `Get` stops at the first write on the key.

- `get_latest_iff`: `Get` gives what the last write on the key leaves exactly when the first write on it leaves the same.
- `get_reads_first`: an INSERT and an UPDATE of one key, and `Get` gives the row of the INSERT.
-/
namespace OriginDB

open JsonDoc Machine

namespace Txn

/-- What a write leaves under its key. -/
def left (w : WriteOperation) : Option Row := if w.op = .delete then none else some w.row

/-- `Get` (transaction_impl.cpp:71): the first write on the key; the tables are not asked. -/
def get (txn : Txn) (table key : Bytes) : Option Row :=
  if txn.state ≠ .active then none
  else match txn.writeSet.find? fun w => w.tableName = table ∧ w.row.key = key with
    | none => none
    | some w => if w.op = .delete then none else some w.row

/-- The calls that stage a write. -/
inductive Call where
  | insert (table : Bytes) (row : Row)
  | update (table key : Bytes) (row : Row)
  | delete (table key : Bytes)

def step (txn : Txn) : Call → Option Txn
  | .insert table row => txn.insert table row
  | .update table key row => txn.update table key row
  | .delete table key => txn.delete table key

/-- The writes on one key, in the order they were staged. -/
def writesOn (txn : Txn) (table key : Bytes) : List WriteOperation :=
  txn.writeSet.filter fun w => w.tableName = table ∧ w.row.key = key

/-- What the last write on the key leaves. -/
def latest (txn : Txn) (table key : Bytes) : Option Row := (txn.writesOn table key).getLast?.bind left

/-- The first and the last write on the key are both DELETEs, or carry the same row. -/
def SameEnds (txn : Txn) (table key : Bytes) : Prop :=
  ∀ first last, (txn.writesOn table key).head? = some first → (txn.writesOn table key).getLast? = some last →
    (first.op = .delete ∧ last.op = .delete) ∨ (first.op ≠ .delete ∧ last.op ≠ .delete ∧ first.row = last.row)

section
variable {txn txn' : Txn} {table key : Bytes}

theorem left_eq_iff {v w : WriteOperation} : left v = left w ↔
    (v.op = .delete ∧ w.op = .delete) ∨ (v.op ≠ .delete ∧ w.op ≠ .delete ∧ v.row = w.row) := by
  unfold left
  by_cases hv : v.op = .delete
  · by_cases hw : w.op = .delete
    · simp [hv, hw]
    · simp [hv, hw]
  · by_cases hw : w.op = .delete
    · simp [hv, hw]
    · simp [hv, hw]

/-- Staging leaves the transaction active. -/
theorem active_stage {w : WriteOperation} (hactive : txn.state = .active) (hstage : txn.stage w = some txn') :
    txn'.state = .active := by
  rw [stage, if_pos hactive, Option.some.injEq] at hstage
  rw [← hstage]
  exact hactive

theorem active_step {c : Call} (hactive : txn.state = .active) (hstep : txn.step c = some txn') : txn'.state = .active := by
  cases c with
  | insert table row => exact active_stage hactive hstep
  | update table key row => exact active_stage hactive hstep
  | delete table key => exact active_stage hactive hstep

/-- `Get` gives what the first write on the key leaves. -/
theorem get_eq (hactive : txn.state = .active) (table key : Bytes) :
    txn.get table key = (txn.writesOn table key).head?.bind left := by
  rw [get, if_neg (by simp [hactive]), writesOn, List.head?_filter]
  cases txn.writeSet.find? fun w => decide (w.tableName = table ∧ w.row.key = key) with
  | none => rfl
  | some w => rfl

theorem get_eq_latest_iff (hactive : txn.state = .active) (table key : Bytes) :
    txn.get table key = txn.latest table key ↔ txn.SameEnds table key := by
  rw [get_eq hactive, latest, SameEnds]
  cases hw : txn.writesOn table key with
  | nil => simp
  | cons first rest =>
    have hlast : ∃ last, (first :: rest).getLast? = some last := ⟨_, List.getLast?_cons⟩
    obtain ⟨last, hlast⟩ := hlast
    simp only [hlast, List.head?_cons, Option.bind_some, left_eq_iff, Option.some.injEq]
    constructor
    · rintro h _ _ rfl rfl
      exact h
    · intro h
      exact h first last rfl rfl

end

/-! ## What `Commit` leaves -/

/-- The last write on a key decides. -/
theorem netRow_last (clock : Nat → UInt64) (table key : Bytes) (i : Nat) {ws : List WriteOperation} {w : WriteOperation}
    (hlast : (ws.filter fun w => w.tableName = table ∧ w.row.key = key).getLast? = some w) (r : Option Row) :
    ∃ now old, netRow clock table key i ws r = rowStep now w old := by
  induction ws using List.reverseRecOn with
  | nil => simp at hlast
  | append_singleton ws v ih =>
    rw [netRow_concat]
    by_cases hv : v.tableName = table ∧ v.row.key = key
    · have hw : v = w := by simpa [List.filter_append, hv] using hlast
      rw [if_pos hv, ← hw]
      exact ⟨_, _, rfl⟩
    · rw [if_neg hv]
      apply ih
      simpa [List.filter_append, hv] using hlast

/-- A commit leaves what the last write on the key leaves, with a version and a time of its own. -/
theorem commit_last {env : Env} {feed : Bool} {clock : Nat → UInt64} {e e' : Engine} {txn : Txn} {entries : List WALEntry}
    {events : List ChangefeedEvent} (h : commit env feed clock e txn = .submitted e' entries events) {table key : Bytes}
    (hon : txn.writesOn table key ≠ []) : match txn.latest table key with
      | none => rowOf e'.tables table key = none
      | some row => ∃ version timestamp, rowOf e'.tables table key = some { row with version := version, timestamp := timestamp } := by
  have hafter := ((After.refl clock e).done (commit_spec.1 _ _ _ h)).rows table key
  obtain ⟨w, hlast⟩ : ∃ w, (txn.writesOn table key).getLast? = some w := by
    cases hw : txn.writesOn table key with
    | nil => exact absurd hw hon
    | cons first rest => exact ⟨_, List.getLast?_cons⟩
  obtain ⟨now, old, hnet⟩ := netRow_last clock table key 0 hlast (rowOf e.tables table key)
  rw [List.nil_append, hnet] at hafter
  rw [latest, hlast, Option.bind_some, left]
  by_cases hop : w.op = .delete
  · rw [if_pos hop]
    simp only
    rw [hafter]
    cases old with
    | none => simp [rowStep, hop]
    | some r => simp [rowStep, hop]
  · rw [if_neg hop]
    simp only
    rw [hafter]
    cases old with
    | none => exact ⟨w.row.version, w.row.timestamp, by simp [rowStep, hop]⟩
    | some r => exact ⟨r.version + 1, now, by simp [rowStep, hop]⟩

/-- **Reading one's own writes.** However an active transaction was filled, `Get` gives what the last write on the key leaves
exactly when the first write on it is a DELETE as well, or carries the same row as well; and a commit of the transaction
leaves what the last write leaves. -/
theorem get_latest_iff (timestamp : UInt64) (cs : List Call) (txn : Txn)
    (hrun : run step { timestamp := timestamp } cs = some txn) (table key : Bytes) :
    (txn.get table key = txn.latest table key ↔ txn.SameEnds table key) ∧
      ∀ env feed clock e e' entries events, commit env feed clock e txn = .submitted e' entries events →
        txn.writesOn table key ≠ [] → match txn.latest table key with
          | none => rowOf e'.tables table key = none
          | some row => ∃ version timestamp,
            rowOf e'.tables table key = some { row with version := version, timestamp := timestamp } := by
  have hany : Allowed step (fun _ _ => True) { timestamp := timestamp } cs := .of_forall fun _ _ _ => trivial
  have hactive : txn.state = .active := by
    apply run_invariant (fun txn : Txn => txn.state = .active) _ rfl hany hrun
    intro t c t' ht _ hstep
    exact active_step ht hstep
  refine ⟨get_eq_latest_iff hactive table key, ?_⟩
  intro env feed clock e e' entries events hcommit hon
  exact commit_last hcommit hon

def rowOne : Row := { key := str "k", columns := (∅ : Columns).insert (str "a") (.int64 1) }

def rowTwo : Row := { key := str "k", columns := (∅ : Columns).insert (str "a") (.int64 2) }

/-- One write on the key, and others on other keys and tables. -/
theorem get_latest_one : ∃ txn, run step { timestamp := 1 } [.delete (str "u") (str "k"), .insert (str "t") rowOne,
      .delete (str "t") (str "j")] = some txn ∧ txn.get (str "t") (str "k") = txn.latest (str "t") (str "k") ∧
      txn.latest (str "t") (str "k") = some rowOne :=
  ⟨_, rfl, (get_latest_iff 1 [.delete (str "u") (str "k"), .insert (str "t") rowOne, .delete (str "t") (str "j")] _ rfl
    (str "t") (str "k")).1.2 (by rintro _ _ ⟨⟩ ⟨⟩; exact Or.inr ⟨by decide, by decide, rfl⟩), by decide⟩

/-- After an INSERT and an UPDATE of one key, `Get` gives the row of the INSERT. -/
theorem get_reads_first : ¬ ∀ (timestamp : UInt64) (cs : List Call) (txn : Txn),
    run step { timestamp := timestamp } cs = some txn → ∀ table key, txn.get table key = txn.latest table key := by
  intro h
  have hget := h 1 [.insert (str "t") rowOne, .update (str "t") (str "k") rowTwo] _ rfl (str "t") (str "k")
  revert hget
  decide

end Txn

end OriginDB
