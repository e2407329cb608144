import OriginDB.Lib.Machine
import OriginDB.Storage.Snapshot
import OriginDB.Storage.WriteSets
/-!
# From `BeginTransaction` to `Commit` or `Rollback` (`storage_engine.cpp:288-470`)

`BeginTransaction` takes a timestamp, and then the lock of the map to register the transaction under it. A `Commit` or a `Rollback`
that comes to its end takes the transaction out of the map, sets its state and counts it, one after the other. The map has a lock, the
counters have none: `++` is taken for a read and a write, and of two that cross one is lost.

A `Commit` that returns false, or throws, does none of this: the transaction stays active, and registered. The direct operations of
`StorageEngine` and `CommitHostCall` let go of a transaction whose commit has failed, so every failed commit leaves an entry behind
(`failed_commits_stay`).

| here | there |
| --- | --- |
| `begin`          | `BeginTransaction` (`:288`) up to the lock of the map |
| `stage h w`      | `Insert`, `Update`, `Delete` of the transaction (transaction_impl.cpp:25-69) |
| `commit h clock` | `Commit` (`:303`) up to `AppendBatchAsync`, or to the lock of the map where nothing is to be written |
| `durable h ok`   | what is left of it up to the lock of the map, once the batch is on disk and published, or is not on disk |
| `rollback h`     | `Rollback` (`:453`) up to the lock of the map |
| `proceed h`      | the next step of the call that works on the transaction, from that lock on |
| `schema tables`  | `CreateTable`, `DropTable` |

A transaction is named by its place among all that have been begun. Callers work on different transactions at the same time, but each
transaction has one caller, who waits for his calls. `failed` is history: the transactions whose `Commit` has returned false or thrown
while they were active, once for each time. (A `Commit` of a transaction that has ended returns false too, and is none of them.)
-/
namespace OriginDB

open JsonDoc Lists Machine

namespace Transactions

/-- How a transaction ends. -/
inductive Outcome where
  | committed | aborted
deriving DecidableEq

namespace Outcome

def state : Outcome → TxnState
  | committed => .committed
  | aborted => .aborted

/-- `transactions_committed`, `transactions_aborted`. -/
def count : Outcome → Stats → UInt64
  | committed, stats => stats.transactionsCommitted
  | aborted, stats => stats.transactionsAborted

def setCount : Outcome → UInt64 → Stats → Stats
  | committed, n, stats => { stats with transactionsCommitted := n }
  | aborted, n, stats => { stats with transactionsAborted := n }

end Outcome

/-- Where the call that works on a transaction stands. -/
inductive Phase where
  /-- `BeginTransaction` has made it, and waits for the map. -/
  | starting
  /-- No call works on it. -/
  | idle
  /-- `Commit` waits for the log. -/
  | waiting
  /-- `Commit` or `Rollback` waits for the map. -/
  | ending (o : Outcome)
  /-- It is out of the map. -/
  | erased (o : Outcome)
  /-- `SetCommitted`, `SetAborted`. -/
  | marked (o : Outcome)
  /-- The counter has been read. -/
  | counting (o : Outcome) (n : UInt64)
  /-- And written. -/
  | ended (o : Outcome)
deriving DecidableEq

namespace Phase

def state : Phase → TxnState
  | starting | idle | waiting | ending _ | erased _ => .active
  | marked o | counting o _ | ended o => o.state

/-- It is in the map. -/
def registered : Phase → Bool
  | idle | waiting | ending _ => true
  | _ => false

/-- It is active, and not in the map: not yet, or not any more. -/
def between : Phase → Bool
  | starting | erased _ => true
  | _ => false

/-- Its caller may call. -/
def free : Phase → Bool
  | idle | ended _ => true
  | _ => false

/-- It is about to write the counter. -/
def counts (o : Outcome) : Phase → Bool
  | counting o' _ => o' = o
  | _ => false

/-- It is about to read the counter that the other is about to write. -/
def crosses : Phase → Phase → Bool
  | marked o, other => other.counts o
  | _, _ => false

end Phase

/-- A transaction that has been begun; its state is that of its phase. -/
structure Begun where
  txn : Txn
  phase : Phase
  agrees : txn.state = phase.state

namespace Begun

/-- The state changes with `marked` only. -/
def goto (b : Begun) (phase : Phase) : Begun := ⟨{ b.txn with state := phase.state }, phase, rfl⟩

def stage (b : Begun) (w : WriteOperation) : Begun :=
  match hstage : b.txn.stage w with
  | none => b
  | some txn => ⟨txn, b.phase, by
      unfold Txn.stage at hstage
      split at hstage
      · cases hstage
        exact b.agrees
      · cases hstage⟩

end Begun

end Transactions

open Transactions in
structure Transactions where
  engine : Engine := {}
  nextTimestamp : UInt64 := 1
  txns : List Begun := []
  /-- `active_transactions_` -/
  active : List (UInt64 × Nat) := []
  failed : List Nat := []

namespace Transactions

inductive Label where
  | begin
  | stage (h : Nat) (w : WriteOperation)
  | commit (h : Nat) (clock : Nat → UInt64)
  | durable (h : Nat) (ok : Bool)
  | rollback (h : Nat)
  | proceed (h : Nat)
  | schema (tables : Tables)

/-- The transaction a caller turns to. -/
def Label.caller : Label → Option Nat
  | .stage h _ | .commit h _ | .rollback h => some h
  | _ => none

/-- The commits that have failed. -/
def failures (s : Transactions) : Nat := s.failed.length

def begun (s : Transactions) : Transactions :=
  { s with
    nextTimestamp := s.nextTimestamp + 1
    txns := s.txns ++ [⟨{ timestamp := s.nextTimestamp }, .starting, rfl⟩] }

def put (s : Transactions) (h : Nat) (b : Begun) : Transactions := { s with txns := s.txns.set h b }

/-- `active_transactions_[timestamp] = txn` (`:297`). -/
def enter (s : Transactions) (h : Nat) (b : Begun) : Transactions :=
  { s.put h (b.goto .idle) with active := (b.txn.timestamp, h) :: s.active.filter fun p => p.1 ≠ b.txn.timestamp }

/-- `active_transactions_.erase(txn->GetTimestamp())` (`:443`, `:461`). -/
def leave (s : Transactions) (h : Nat) (b : Begun) (o : Outcome) : Transactions :=
  { s.put h (b.goto (.erased o)) with active := s.active.filter fun p => p.1 ≠ b.txn.timestamp }

def setStats (s : Transactions) (f : Stats → Stats) : Transactions :=
  { s with engine := { s.engine with stats := f s.engine.stats } }

/-- A commit that does not end well leaves the transaction as it is. -/
def fail (s : Transactions) (h : Nat) (b : Begun) : Transactions := { s.put h (b.goto .idle) with failed := h :: s.failed }

section
variable (env : Env) (feed : Bool)

def step (s : Transactions) : Label → Option Transactions
  | .begin => some s.begun
  | .stage h w => do
    let b ← s.txns[h]?
    if b.phase.free then some (s.put h (b.stage w)) else none
  | .commit h clock => do
    let b ← s.txns[h]?
    if b.phase.free then
      match OriginDB.commit env feed clock s.engine b.txn with
      | .notActive => some s
      | .nothingToWrite => some (s.put h (b.goto (.ending .committed)))
      | .rejected e | .threw e => some (({ s with engine := e } : Transactions).fail h b)
      | .submitted e _ _ => some (({ s with engine := e } : Transactions).put h (b.goto .waiting))
    else none
  | .durable h ok => do
    let b ← s.txns[h]?
    if b.phase = .waiting then
      if ok then some (s.put h (b.goto (.ending .committed))) else some (s.fail h b)
    else none
  | .rollback h => do
    let b ← s.txns[h]?
    if b.phase.free then
      if b.txn.state = .active then some (s.put h (b.goto (.ending .aborted))) else some s
    else none
  | .proceed h => do
    let b ← s.txns[h]?
    match b.phase with
    | .starting => some (s.enter h b)
    | .ending o => some (s.leave h b o)
    | .erased o => some (s.put h (b.goto (.marked o)))
    | .marked o => some (s.put h (b.goto (.counting o (o.count s.engine.stats))))
    | .counting o n => some ((s.put h (b.goto (.ended o))).setStats (o.setCount (n + 1)))
    | .idle | .waiting | .ended _ => none
  | .schema tables => some { s with engine := { s.engine with tables := tables } }

end

/-- There are timestamps left. -/
def Few (s : Transactions) (_ : Label) : Prop := s.txns.length + 2 < 2 ^ 64

/-- No counter is read while another call is about to write it. -/
def Alone (s : Transactions) : Label → Prop
  | .proceed h => ∀ b ∈ s.txns[h]?, ∀ c ∈ s.txns, b.phase.crosses c.phase = false
  | _ => True

/-- The transactions in some phases. -/
def number (s : Transactions) (p : Phase → Bool) : Nat := s.txns.countP fun b => p b.phase

/-- The transactions whose call has written the counter. -/
def counted (s : Transactions) (o : Outcome) : Nat := s.number fun p => p = .ended o

/-- The map has the transactions that are in it by their phase, each under its own timestamp. -/
structure Registered (s : Transactions) : Prop where
  next : s.nextTimestamp.toNat = s.txns.length + 1
  timestamps : ∀ (h : Nat) (b : Begun), s.txns[h]? = some b → b.txn.timestamp.toNat = h + 1
  distinct : (s.active.map Prod.fst).Nodup
  registered : ∀ ts h, (ts, h) ∈ s.active ↔ ∃ b, s.txns[h]? = some b ∧ b.txn.timestamp = ts ∧ b.phase.registered = true
  size : s.active.length = s.number Phase.registered

/-- The counters do not run ahead, nor does what has been read of them. -/
structure Bounded (s : Transactions) : Prop where
  count : ∀ o : Outcome, (o.count s.engine.stats).toNat ≤ s.counted o
  read : ∀ b ∈ s.txns, ∀ o n, b.phase = .counting o n → n.toNat ≤ s.counted o

/-- The counters are true, and what one call has read is still so; no second call has. -/
structure Exact (s : Transactions) : Prop where
  count : ∀ o : Outcome, (o.count s.engine.stats).toNat = s.counted o
  read : ∀ b ∈ s.txns, ∀ o n, b.phase = .counting o n → n = o.count s.engine.stats
  one : ∀ o, s.number (Phase.counts o) ≤ 1

section
variable {env : Env} {feed : Bool} {s s' : Transactions} {h : Nat} {b b' : Begun}

/-! ## What a step does -/

def SameCounts (e e' : Engine) : Prop := ∀ o : Outcome, o.count e'.stats = o.count e.stats

/-- A transaction more, one that gets on in a call, one whose commit has failed, or one that takes the next step of those that
register, unregister, end and count it. -/
inductive Moves (s : Transactions) : Label → Transactions → Prop where
  | begins : Moves s .begin s.begun
  | stays {l : Label} {e : Engine} (hcounts : SameCounts s.engine e) : Moves s l { s with engine := e }
  | calls {l : Label} {h : Nat} {b b' : Begun} {e : Engine} (hcounts : SameCounts s.engine e) (hget : s.txns[h]? = some b)
      (hts : b'.txn.timestamp = b.txn.timestamp) (hb : b.phase.registered = true) (hb' : b'.phase.registered = true)
      (hcaller : b.phase = .waiting ∨ l.caller = some h) : Moves s l (({ s with engine := e } : Transactions).put h b')
  | fails {l : Label} {h : Nat} {b : Begun} {e : Engine} (hcounts : SameCounts s.engine e) (hget : s.txns[h]? = some b)
      (hb : b.phase.registered = true) (hcaller : b.phase = .waiting ∨ l.caller = some h) :
      Moves s l (({ s with engine := e } : Transactions).fail h b)
  | enters {h : Nat} {b : Begun} (hget : s.txns[h]? = some b) (hb : b.phase = .starting) : Moves s (.proceed h) (s.enter h b)
  | leaves {h : Nat} {b : Begun} {o : Outcome} (hget : s.txns[h]? = some b) (hb : b.phase = .ending o) :
      Moves s (.proceed h) (s.leave h b o)
  | marks {h : Nat} {b : Begun} {o : Outcome} (hget : s.txns[h]? = some b) (hb : b.phase = .erased o) :
      Moves s (.proceed h) (s.put h (b.goto (.marked o)))
  | reads {h : Nat} {b : Begun} {o : Outcome} (hget : s.txns[h]? = some b) (hb : b.phase = .marked o) :
      Moves s (.proceed h) (s.put h (b.goto (.counting o (o.count s.engine.stats))))
  | writes {h : Nat} {b : Begun} {o : Outcome} {n : UInt64} (hget : s.txns[h]? = some b) (hb : b.phase = .counting o n) :
      Moves s (.proceed h) ((s.put h (b.goto (.ended o))).setStats (o.setCount (n + 1)))

/-- Applying writes leaves the two counters alone. -/
theorem commit_counts (env : Env) (feed : Bool) (clock : Nat → UInt64) (e : Engine) (txn : Txn) :
    SameCounts e ((OriginDB.commit env feed clock e txn).engine e) := by
  refine commit_rule (R := SameCounts) (fun _ _ => rfl) (fun h h' o => (h' o).trans (h o)) (fun w _ e e' now old hw o => ?_) env feed clock e
  obtain ⟨-, -, -, -, -, ⟨-, -, -, hstats⟩ | ⟨-, hstats, -⟩ | ⟨-, -, -, hstats⟩⟩ := applyWrite_eq_some hw <;>
    rw [hstats] <;> cases o <;> rfl

/-- Only an active transaction gets anywhere. -/
theorem commit_active (env : Env) (feed : Bool) (clock : Nat → UInt64) (e : Engine) (txn : Txn)
    (hcommit : OriginDB.commit env feed clock e txn ≠ .notActive) : txn.state = .active := by
  by_contra hno
  exact hcommit (if_pos hno)

/-- A transaction whose caller may call is in the map as long as it is active. -/
theorem registered_of_free (hfree : b.phase.free = true) (hactive : b.txn.state = .active) : b.phase.registered = true := by
  rw [b.agrees] at hactive
  cases hphase : b.phase with
  | idle => rfl
  | ended o =>
    rw [hphase] at hactive
    cases o <;> cases hactive
  | _ =>
    rw [hphase] at hfree
    cases hfree

theorem timestamp_stage (b : Begun) (w : WriteOperation) : (b.stage w).txn.timestamp = b.txn.timestamp := by
  unfold Begun.stage
  split
  · rfl
  · rename_i txn hstage
    unfold Txn.stage at hstage
    split at hstage
    · cases hstage
      rfl
    · cases hstage

theorem phase_stage (b : Begun) (w : WriteOperation) : (b.stage w).phase = b.phase := by
  unfold Begun.stage
  split <;> rfl

theorem put_self (hget : s.txns[h]? = some b) : s.put h b = s := by
  obtain ⟨hlt, rfl⟩ := List.getElem?_eq_some_iff.1 hget
  rw [put, List.set_getElem_self]

/-- Nothing is staged by a transaction that has ended. -/
theorem stage_ended (hactive : b.txn.state ≠ .active) (w : WriteOperation) : b.stage w = b := by
  have hnone : b.txn.stage w = none := if_neg hactive
  unfold Begun.stage
  split
  · rfl
  · rename_i hstage
    rw [hnone] at hstage
    cases hstage

theorem step_cases {l : Label} (hstep : step env feed s l = some s') : Moves s l s' := by
  have hbind : ∀ {h : Nat} {f : Begun → Option Transactions}, (s.txns[h]?.bind f) = some s' → ∃ b, s.txns[h]? = some b ∧ f b = some s' :=
    fun h => Option.bind_eq_some_iff.1 h
  cases l with
  | begin =>
    cases hstep
    exact .begins
  | schema tables =>
    cases hstep
    exact .stays fun _ => rfl
  | stage h w =>
    obtain ⟨b, hget, hrest⟩ := hbind hstep
    split at hrest
    · rename_i hfree
      cases hrest
      by_cases hactive : b.txn.state = .active
      · have hreg := registered_of_free hfree hactive
        exact .calls (e := s.engine) (fun _ => rfl) hget (timestamp_stage b w) hreg (by rwa [phase_stage]) (.inr rfl)
      · rw [stage_ended hactive, put_self hget]
        exact .stays (e := s.engine) fun _ => rfl
    · cases hrest
  | commit h clock =>
    obtain ⟨b, hget, hrest⟩ := hbind hstep
    split at hrest
    · rename_i hfree
      have hcounts := commit_counts env feed clock s.engine b.txn
      have hactive := commit_active env feed clock s.engine b.txn
      cases hcommit : OriginDB.commit env feed clock s.engine b.txn with
      | notActive =>
        rw [hcommit] at hrest
        cases hrest
        exact .stays (e := s.engine) fun _ => rfl
      | nothingToWrite =>
        rw [hcommit] at hrest hactive
        cases hrest
        exact .calls (e := s.engine) (fun _ => rfl) hget rfl (registered_of_free hfree (hactive (by simp))) rfl (.inr rfl)
      | rejected e | threw e =>
        rw [hcommit] at hrest hactive hcounts
        cases hrest
        exact .fails hcounts hget (registered_of_free hfree (hactive (by simp))) (.inr rfl)
      | submitted e entries events =>
        rw [hcommit] at hrest hactive hcounts
        cases hrest
        exact .calls hcounts hget rfl (registered_of_free hfree (hactive (by simp))) rfl (.inr rfl)
    · cases hrest
  | durable h ok =>
    obtain ⟨b, hget, hrest⟩ := hbind hstep
    split at hrest
    · rename_i hwaiting
      have hreg : b.phase.registered = true := by rw [hwaiting]; rfl
      cases ok with
      | true =>
        cases hrest
        exact .calls (e := s.engine) (fun _ => rfl) hget rfl hreg rfl (.inl hwaiting)
      | false =>
        cases hrest
        exact .fails (e := s.engine) (fun _ => rfl) hget hreg (.inl hwaiting)
    · cases hrest
  | rollback h =>
    obtain ⟨b, hget, hrest⟩ := hbind hstep
    split at hrest
    · rename_i hfree
      split at hrest
      · rename_i hactive
        cases hrest
        exact .calls (e := s.engine) (fun _ => rfl) hget rfl (registered_of_free hfree hactive) rfl (.inr rfl)
      · cases hrest
        exact .stays (e := s.engine) fun _ => rfl
    · cases hrest
  | proceed h =>
    obtain ⟨b, hget, hrest⟩ := hbind hstep
    cases hphase : b.phase <;> rw [hphase] at hrest <;> cases hrest
    · exact .enters hget hphase
    · exact .leaves hget hphase
    · exact .marks hget hphase
    · exact .reads hget hphase
    · exact .writes hget hphase

/-! ## Counting -/

/-- A transaction gets into another phase. -/
theorem number_put (hget : s.txns[h]? = some b) (b' : Begun) (p : Phase → Bool) :
    (s.put h b').number p + (if p b.phase = true then 1 else 0) = s.number p + if p b'.phase = true then 1 else 0 := by
  have hperm := (cons_set_perm (b := b') hget).countP_eq fun c => p c.phase
  simp only [List.countP_cons] at hperm
  exact hperm

theorem number_put_same (hget : s.txns[h]? = some b) {p : Phase → Bool} (hsame : p b'.phase = p b.phase) :
    (s.put h b').number p = s.number p := by
  have hnumber := number_put hget b' p
  rw [hsame] at hnumber
  exact Nat.add_right_cancel hnumber

theorem number_begun (p : Phase → Bool) : s.begun.number p = s.number p + if p .starting = true then 1 else 0 := by
  rw [number, begun, List.countP_append, List.countP_singleton]
  rfl

theorem number_le_length (p : Phase → Bool) : s.number p ≤ s.txns.length := List.countP_le_length

/-- Every transaction is in the map, between, or over. -/
theorem length_eq_number : s.txns.length = s.number Phase.registered + s.number Phase.between +
    (s.number (fun p => p.state = .committed) + s.number fun p => p.state = .aborted) := by
  simp only [number]
  induction s.txns with
  | nil => rfl
  | cons b txns ih =>
    simp only [List.length_cons, List.countP_cons, ih]
    cases b.phase with
    | starting | idle | waiting | ending o | erased o => simp [Phase.registered, Phase.between, Phase.state]; omega
    | marked o | counting o n | ended o => cases o <;> simp [Phase.registered, Phase.between, Phase.state, Outcome.state] <;> omega

/-- A key that is there once is filtered out once. -/
theorem length_filter_ne {α β : Type} [DecidableEq α] {l : List (α × β)} {p : α × β} (hd : (l.map Prod.fst).Nodup) (hp : p ∈ l) :
    (l.filter fun q => q.1 ≠ p.1).length + 1 = l.length := by
  induction l with
  | nil => cases hp
  | cons q l ih =>
    rw [List.map_cons, List.nodup_cons] at hd
    obtain rfl | hp := List.mem_cons.1 hp
    · have hrest : (l.filter fun q => q.1 ≠ p.1) = l := by
        refine List.filter_eq_self.2 fun q hq => ?_
        rw [decide_eq_true_eq]
        rintro heq
        exact hd.1 (heq ▸ List.mem_map_of_mem hq)
      rw [List.filter_cons_of_neg (by simp), hrest, List.length_cons]
    · have hne : q.1 ≠ p.1 := fun heq => hd.1 (heq ▸ List.mem_map_of_mem hp)
      rw [List.filter_cons_of_pos (by simpa using hne), List.length_cons, List.length_cons, ih hd.2 hp]

/-! ## The map -/

/-- A handle that is there comes before the new one. -/
theorem lt_length (hget : s.txns[h]? = some b) : h < s.txns.length := (List.getElem?_eq_some_iff.1 hget).1

theorem getElem?_begun {k : Nat} {c : Begun} (hk : s.begun.txns[k]? = some c) :
    s.txns[k]? = some c ∨ (k = s.txns.length ∧ c = ⟨{ timestamp := s.nextTimestamp }, .starting, rfl⟩) := by
  rw [begun, List.getElem?_append] at hk
  split at hk
  · exact .inl hk
  · rw [List.getElem?_singleton] at hk
    split at hk
    · cases hk
      exact .inr ⟨by omega, rfl⟩
    · cases hk

theorem getElem?_begun_old {k : Nat} {c : Begun} (hk : s.txns[k]? = some c) : s.begun.txns[k]? = some c := by
  rw [begun, List.getElem?_append_left (lt_length hk), hk]

theorem getElem?_put {k : Nat} {c : Begun} (hk : (s.put h b').txns[k]? = some c) : (k = h ∧ c = b') ∨ (k ≠ h ∧ s.txns[k]? = some c) := by
  by_cases hkh : k = h
  · subst hkh
    rw [put, List.getElem?_set_self'] at hk
    obtain ⟨-, -, rfl⟩ := Option.map_eq_some_iff.1 hk
    exact .inl ⟨rfl, rfl⟩
  · rw [put, List.getElem?_set_ne (Ne.symm hkh)] at hk
    exact .inr ⟨hkh, hk⟩

theorem getElem?_put_self (hget : s.txns[h]? = some b) (b' : Begun) : (s.put h b').txns[h]? = some b' :=
  List.getElem?_set_self (lt_length hget)

theorem getElem?_put_ne {k : Nat} (hkh : k ≠ h) (b' : Begun) : (s.put h b').txns[k]? = s.txns[k]? :=
  List.getElem?_set_ne (Ne.symm hkh)

/-- Two transactions with one timestamp are one. -/
theorem Registered.eq_of_timestamp (hs : s.Registered) {k : Nat} {c : Begun} (hget : s.txns[h]? = some b) (hk : s.txns[k]? = some c)
    (hts : c.txn.timestamp = b.txn.timestamp) : k = h := by
  have hone := hs.timestamps h b hget
  have htwo := hs.timestamps k c hk
  rw [hts] at htwo
  omega

theorem Registered.timestamps_put (hs : s.Registered) (hget : s.txns[h]? = some b) (hts : b'.txn.timestamp = b.txn.timestamp)
    (k : Nat) (c : Begun) (hk : (s.put h b').txns[k]? = some c) : c.txn.timestamp.toNat = k + 1 := by
  obtain ⟨rfl, rfl⟩ | ⟨-, hk⟩ := getElem?_put hk
  · rw [hts]
    exact hs.timestamps _ b hget
  · exact hs.timestamps k c hk

theorem Registered.begins (hs : s.Registered) (hfew : s.txns.length + 2 < 2 ^ 64) : s.begun.Registered := by
  constructor
  · show (s.nextTimestamp + 1).toNat = (s.txns ++ [_]).length + 1
    rw [UInt64.toNat_add, hs.next, List.length_append]
    show (s.txns.length + 1 + 1) % 2 ^ 64 = s.txns.length + 1 + 1
    omega
  · intro k c hk
    obtain hk | ⟨rfl, rfl⟩ := getElem?_begun hk
    · exact hs.timestamps k c hk
    · exact hs.next
  · exact hs.distinct
  · intro ts k
    show (ts, k) ∈ s.active ↔ _
    rw [hs.registered]
    constructor
    · rintro ⟨c, hk, hrest⟩
      exact ⟨c, getElem?_begun_old hk, hrest⟩
    · rintro ⟨c, hk, hts, hreg⟩
      obtain hk | ⟨rfl, rfl⟩ := getElem?_begun hk
      · exact ⟨c, hk, hts, hreg⟩
      · cases hreg
  · rw [number_begun]
    exact hs.size

/-- A transaction stays in the map, or out of it. -/
theorem Registered.put (hs : s.Registered) (hget : s.txns[h]? = some b) (hts : b'.txn.timestamp = b.txn.timestamp)
    (hreg : b'.phase.registered = b.phase.registered) : (s.put h b').Registered := by
  constructor
  · show s.nextTimestamp.toNat = (s.txns.set h b').length + 1
    rw [List.length_set]
    exact hs.next
  · exact hs.timestamps_put hget hts
  · exact hs.distinct
  · intro ts k
    show (ts, k) ∈ s.active ↔ _
    rw [hs.registered]
    by_cases hkh : k = h
    · subst hkh
      rw [hget, getElem?_put_self hget]
      simp only [Option.some.injEq, exists_eq_left', hts, hreg]
    · rw [getElem?_put_ne hkh]
  · rw [number_put_same hget hreg]
    exact hs.size

theorem Registered.enter (hs : s.Registered) (hget : s.txns[h]? = some b) (hb : b.phase = .starting) : (s.enter h b).Registered := by
  have hout : b.phase.registered = false := by rw [hb]; rfl
  -- nobody is in the map under its timestamp
  have hfresh : ∀ p ∈ s.active, p.1 ≠ b.txn.timestamp := by
    rintro ⟨ts, k⟩ hp rfl
    obtain ⟨c, hk, hts, hreg⟩ := (hs.registered _ _).1 hp
    obtain rfl := hs.eq_of_timestamp hget hk hts
    rw [hget] at hk
    cases hk
    rw [hout] at hreg
    cases hreg
  have hfilter : (s.active.filter fun p => p.1 ≠ b.txn.timestamp) = s.active :=
    List.filter_eq_self.2 fun p hp => by simpa using hfresh p hp
  unfold Transactions.enter
  rw [hfilter]
  constructor
  · show s.nextTimestamp.toNat = (s.txns.set h _).length + 1
    rw [List.length_set]
    exact hs.next
  · exact hs.timestamps_put hget rfl
  · show (b.txn.timestamp :: s.active.map Prod.fst).Nodup
    rw [List.nodup_cons]
    refine ⟨fun hmem => ?_, hs.distinct⟩
    obtain ⟨p, hp, hts⟩ := List.mem_map.1 hmem
    exact hfresh p hp hts
  · intro ts k
    show (ts, k) ∈ (b.txn.timestamp, h) :: s.active ↔ ∃ c, (s.put h (b.goto .idle)).txns[k]? = some c ∧ _
    rw [List.mem_cons, hs.registered, Prod.mk.injEq]
    by_cases hkh : k = h
    · subst hkh
      rw [hget, getElem?_put_self hget]
      simp only [and_true, Option.some.injEq, exists_eq_left', hout, Bool.false_eq_true, and_false, or_false]
      exact ⟨fun hts => ⟨hts.symm, rfl⟩, fun hrest => hrest.1.symm⟩
    · rw [getElem?_put_ne hkh]
      simp only [hkh, and_false, false_or]
  · have hnumber := number_put hget (b.goto .idle) Phase.registered
    rw [if_neg (by simp [hout]), ← hs.size] at hnumber
    exact hnumber.symm

theorem Registered.leave (hs : s.Registered) (hget : s.txns[h]? = some b) {o : Outcome} (hb : b.phase = .ending o) :
    (s.leave h b o).Registered := by
  have hin : b.phase.registered = true := by rw [hb]; rfl
  have hmem : (b.txn.timestamp, h) ∈ s.active := (hs.registered _ _).2 ⟨b, hget, rfl, hin⟩
  constructor
  · show s.nextTimestamp.toNat = (s.txns.set h _).length + 1
    rw [List.length_set]
    exact hs.next
  · exact hs.timestamps_put hget rfl
  · exact hs.distinct.sublist ((List.filter_sublist).map _)
  · intro ts k
    show (ts, k) ∈ s.active.filter (fun p => p.1 ≠ b.txn.timestamp) ↔ ∃ c, (s.put h (b.goto (.erased o))).txns[k]? = some c ∧ _
    rw [List.mem_filter, hs.registered, decide_eq_true_eq]
    constructor
    · rintro ⟨⟨c, hk, rfl, hreg⟩, hts⟩
      have hkh : k ≠ h := by
        rintro rfl
        rw [hget] at hk
        cases hk
        exact hts rfl
      exact ⟨c, (getElem?_put_ne hkh _).trans hk, rfl, hreg⟩
    · rintro ⟨c, hk, rfl, hreg⟩
      obtain ⟨rfl, rfl⟩ | ⟨hkh, hk⟩ := getElem?_put hk
      · cases hreg
      · exact ⟨⟨c, hk, rfl, hreg⟩, fun hts => hkh (hs.eq_of_timestamp hget hk hts)⟩
  · have hnumber := number_put hget (b.goto (.erased o)) Phase.registered
    rw [if_pos hin, if_neg (by simp [Begun.goto, Phase.registered]), ← hs.size] at hnumber
    have hlength : (s.active.filter fun p => p.1 ≠ b.txn.timestamp).length + 1 = s.active.length := length_filter_ne hs.distinct hmem
    show (s.active.filter fun p => p.1 ≠ b.txn.timestamp).length = (s.put h (b.goto (.erased o))).number Phase.registered
    omega

/-- The engine and the history are none of its business. -/
theorem Registered.of_same (hs : s.Registered) (hnext : s'.nextTimestamp = s.nextTimestamp) (htxns : s'.txns = s.txns)
    (hactive : s'.active = s.active) : s'.Registered := by
  obtain ⟨e, n, txns, active, failed⟩ := s'
  subst hnext htxns hactive
  exact ⟨hs.next, hs.timestamps, hs.distinct, hs.registered, hs.size⟩

theorem Registered.moves {l : Label} (hs : s.Registered) (hfew : s.Few l) (hmoves : Moves s l s') : s'.Registered := by
  cases hmoves with
  | begins => exact hs.begins hfew
  | stays hcounts => exact hs.of_same rfl rfl rfl
  | @calls _ h b b' e hcounts hget hts hb hb' hcaller =>
    exact (hs.put hget hts (hb'.trans hb.symm)).of_same rfl rfl rfl
  | @fails _ h b e hcounts hget hb hcaller =>
    have hput : (s.put h (b.goto .idle)).Registered := hs.put hget rfl hb.symm
    exact hput.of_same rfl rfl rfl
  | enters hget hb => exact hs.enter hget hb
  | leaves hget hb => exact hs.leave hget hb
  | marks hget hb | reads hget hb => exact hs.put hget rfl (by rw [hb]; rfl)
  | @writes h b o n hget hb =>
    have hput : (s.put h (b.goto (.ended o))).Registered := hs.put hget rfl (by rw [hb]; rfl)
    exact hput.of_same rfl rfl rfl

/-! ## The counters -/

theorem mem_put {c : Begun} (hc : c ∈ (s.put h b').txns) : c ∈ s.txns ∨ c = b' := List.mem_or_eq_of_mem_set hc

theorem counted_put (hget : s.txns[h]? = some b) (hb : ∀ o, b.phase ≠ .ended o) (hb' : ∀ o, b'.phase ≠ .ended o) (o : Outcome) :
    (s.put h b').counted o = s.counted o :=
  number_put_same hget (by simp [hb, hb'])

/-- The one that is counted. -/
theorem counted_ended (hget : s.txns[h]? = some b) (hb : ∀ o, b.phase ≠ .ended o) (o o' : Outcome) :
    (s.put h (b.goto (.ended o))).counted o' = s.counted o' + if o' = o then 1 else 0 := by
  have hnumber := number_put hget (b.goto (.ended o)) fun p => p = .ended o'
  have hphase : (b.goto (.ended o)).phase = .ended o := rfl
  simp only [hb, decide_false, Bool.false_eq_true, if_false, Nat.add_zero, hphase, decide_eq_true_eq, Phase.ended.injEq] at hnumber
  rw [counted, hnumber, counted]
  simp only [eq_comm]

theorem count_setCount (o o' : Outcome) (n : UInt64) (stats : Stats) :
    o'.count (o.setCount n stats) = if o' = o then n else o'.count stats := by
  cases o <;> cases o' <;> rfl

theorem registered_ne_ended (hb : b.phase.registered = true) (o : Outcome) : b.phase ≠ .ended o := by
  intro h
  rw [h] at hb
  cases hb

theorem registered_ne_counting (hb : b.phase.registered = true) (o : Outcome) (n : UInt64) : b.phase ≠ .counting o n := by
  intro h
  rw [h] at hb
  cases hb

/-- There is room for one more. -/
theorem counted_lt (hget : s.txns[h]? = some b) (hb : ∀ o, b.phase ≠ .ended o) (o : Outcome) : s.counted o < s.txns.length := by
  have hnumber := counted_ended hget hb o o
  have hle := number_le_length (s := s.put h (b.goto (.ended o))) fun p => p = .ended o
  rw [if_pos rfl] at hnumber
  have hlength : (s.put h (b.goto (.ended o))).txns.length = s.txns.length := List.length_set
  rw [hlength] at hle
  exact Nat.lt_of_lt_of_le (Nat.lt_succ_self _) (hnumber.symm.trans_le hle)

theorem toNat_succ_le (n : UInt64) : (n + 1).toNat ≤ n.toNat + 1 := by
  rw [UInt64.toNat_add]
  exact Nat.mod_le _ _

theorem Bounded.of_same (hs : s.Bounded) (htxns : s'.txns = s.txns) (hcounts : SameCounts s.engine s'.engine) : s'.Bounded := by
  refine ⟨fun o => ?_, fun c hc o n hphase => ?_⟩
  · rw [hcounts o, counted, number, htxns]
    exact hs.count o
  · rw [counted, number, htxns]
    exact hs.read c (htxns ▸ hc) o n hphase

theorem Bounded.put (hs : s.Bounded) (hget : s.txns[h]? = some b) (hb : ∀ o, b.phase ≠ .ended o) (hb' : ∀ o, b'.phase ≠ .ended o)
    (hread : ∀ o n, b'.phase = .counting o n → n = o.count s.engine.stats) : (s.put h b').Bounded := by
  refine ⟨fun o => ?_, fun c hc o n hphase => ?_⟩ <;> rw [counted_put hget hb hb']
  · exact hs.count o
  · obtain hc | rfl := mem_put hc
    · exact hs.read c hc o n hphase
    · rw [hread o n hphase]
      exact hs.count o

theorem Bounded.writes (hs : s.Bounded) (hget : s.txns[h]? = some b) {o : Outcome} {n : UInt64} (hb : b.phase = .counting o n) :
    ((s.put h (b.goto (.ended o))).setStats (o.setCount (n + 1))).Bounded := by
  have hne : ∀ o', b.phase ≠ .ended o' := by simp [hb]
  refine ⟨fun o' => ?_, fun c hc o' n' hphase => ?_⟩
  · show (o'.count (o.setCount (n + 1) s.engine.stats)).toNat ≤ (s.put h (b.goto (.ended o))).counted o'
    rw [count_setCount, counted_ended hget hne]
    by_cases ho : o' = o
    · subst ho
      rw [if_pos rfl, if_pos rfl]
      exact (toNat_succ_le n).trans (Nat.succ_le_succ (hs.read b (List.mem_of_getElem? hget) o' n hb))
    · rw [if_neg ho, if_neg ho]
      exact hs.count o'
  · show n'.toNat ≤ (s.put h (b.goto (.ended o))).counted o'
    rw [counted_ended hget hne]
    obtain hc | rfl := mem_put hc
    · exact (hs.read c hc o' n' hphase).trans (Nat.le_add_right _ _)
    · cases hphase

theorem Bounded.moves {l : Label} (hs : s.Bounded) (hmoves : Moves s l s') : s'.Bounded := by
  cases hmoves with
  | begins =>
    refine ⟨fun o => ?_, fun c hc o n hphase => ?_⟩ <;> rw [counted, number_begun]
    · exact hs.count o
    · obtain hc | hc := List.mem_append.1 hc
      · exact hs.read c hc o n hphase
      · rw [List.mem_singleton.1 hc] at hphase
        cases hphase
  | stays hcounts => exact hs.of_same rfl hcounts
  | @calls _ h b b' e hcounts hget hts hb hb' hcaller =>
    have hput : (s.put h b').Bounded := hs.put hget (registered_ne_ended hb) (registered_ne_ended hb')
      fun o n hphase => absurd hphase (registered_ne_counting hb' o n)
    exact hput.of_same rfl hcounts
  | @fails _ h b e hcounts hget hb hcaller =>
    have hput : (s.put h (b.goto .idle)).Bounded := hs.put hget (registered_ne_ended hb) (by simp [Begun.goto]) (by simp [Begun.goto])
    exact hput.of_same rfl hcounts
  | @enters h b hget hb =>
    have hput : (s.put h (b.goto .idle)).Bounded := hs.put hget (by simp [hb]) (by simp [Begun.goto]) (by simp [Begun.goto])
    exact hput.of_same rfl fun _ => rfl
  | @leaves h b o hget hb =>
    have hput : (s.put h (b.goto (.erased o))).Bounded := hs.put hget (by simp [hb]) (by simp [Begun.goto]) (by simp [Begun.goto])
    exact hput.of_same rfl fun _ => rfl
  | marks hget hb => exact hs.put hget (by simp [hb]) (by simp [Begun.goto]) (by simp [Begun.goto])
  | reads hget hb =>
    refine hs.put hget (by simp [hb]) (by simp [Begun.goto]) fun o n hphase => ?_
    cases hphase
    rfl
  | writes hget hb => exact hs.writes hget hb

/-- No transaction is in such a phase. -/
theorem number_eq_zero {p : Phase → Bool} : s.number p = 0 ↔ ∀ b ∈ s.txns, p b.phase = false := by
  simp [number, List.countP_eq_zero]

theorem Exact.of_same (hs : s.Exact) (htxns : s'.txns = s.txns) (hcounts : SameCounts s.engine s'.engine) : s'.Exact := by
  refine ⟨fun o => ?_, fun c hc o n hphase => ?_, fun o => ?_⟩
  · rw [hcounts o, counted, number, htxns]
    exact hs.count o
  · rw [hcounts o]
    exact hs.read c (htxns ▸ hc) o n hphase
  · rw [number, htxns]
    exact hs.one o

theorem Exact.put (hs : s.Exact) (hget : s.txns[h]? = some b) (hb : ∀ o, b.phase ≠ .ended o) (hb' : ∀ o, b'.phase ≠ .ended o)
    (hread : ∀ o n, b'.phase = .counting o n → n = o.count s.engine.stats ∧ s.number (Phase.counts o) = 0) : (s.put h b').Exact := by
  refine ⟨fun o => ?_, fun c hc o n hphase => ?_, fun o => ?_⟩
  · rw [counted_put hget hb hb']
    exact hs.count o
  · obtain hc | rfl := mem_put hc
    · exact hs.read c hc o n hphase
    · exact (hread o n hphase).1
  · have hnumber := number_put hget b' (Phase.counts o)
    have hone := hs.one o
    by_cases hcounts : b'.phase.counts o = true
    · cases hphase : b'.phase with
      | counting o' n =>
        rw [hphase] at hcounts
        have ho : o' = o := by simpa [Phase.counts] using hcounts
        have hzero := (hread o n (by rw [hphase, ho])).2
        split at hnumber <;> split at hnumber <;> omega
      | _ =>
        rw [hphase] at hcounts
        cases hcounts
    · rw [if_neg hcounts] at hnumber
      omega

theorem Exact.writes (hs : s.Exact) (hfew : s.txns.length + 2 < 2 ^ 64) (hget : s.txns[h]? = some b) {o : Outcome} {n : UInt64}
    (hb : b.phase = .counting o n) : ((s.put h (b.goto (.ended o))).setStats (o.setCount (n + 1))).Exact := by
  have hne : ∀ o', b.phase ≠ .ended o' := by simp [hb]
  have hn := hs.read b (List.mem_of_getElem? hget) o n hb
  have hnumber (o' : Outcome) := number_put hget (b.goto (.ended o)) (Phase.counts o')
  refine ⟨fun o' => ?_, fun c hc o' n' hphase => ?_, fun o' => ?_⟩
  · show (o'.count (o.setCount (n + 1) s.engine.stats)).toNat = (s.put h (b.goto (.ended o))).counted o'
    rw [count_setCount, counted_ended hget hne]
    by_cases ho : o' = o
    · subst ho
      have hlt := counted_lt hget hne o'
      rw [if_pos rfl, if_pos rfl, UInt64.toNat_add, hn, hs.count]
      exact Nat.mod_eq_of_lt (show s.counted o' + 1 < 2 ^ 64 by omega)
    · rw [if_neg ho, if_neg ho]
      exact hs.count o'
  · show n' = o'.count (o.setCount (n + 1) s.engine.stats)
    rw [count_setCount]
    -- nobody else was about to write this counter
    have hother : o' ≠ o := by
      rintro rfl
      have hcounts : (s.put h (b.goto (.ended o'))).number (Phase.counts o') = 0 := by
        have hone := hs.one o'
        have hgone := hnumber o'
        rw [hb, if_pos (by simp [Phase.counts]), if_neg (by simp [Begun.goto, Phase.counts])] at hgone
        omega
      have hnone := number_eq_zero.1 hcounts c hc
      rw [hphase] at hnone
      simp [Phase.counts] at hnone
    rw [if_neg hother]
    obtain hc | rfl := mem_put hc
    · exact hs.read c hc o' n' hphase
    · cases hphase
  · show (s.put h (b.goto (.ended o))).number (Phase.counts o') ≤ 1
    have hone := hs.one o'
    have hgone := hnumber o'
    rw [if_neg (show ¬ Phase.counts o' (b.goto (.ended o)).phase = true by simp [Begun.goto, Phase.counts])] at hgone
    omega

theorem Exact.moves {l : Label} (hs : s.Exact) (hfew : s.Few l) (halone : s.Alone l) (hmoves : Moves s l s') : s'.Exact := by
  cases hmoves with
  | begins =>
    refine ⟨fun o => ?_, fun c hc o n hphase => ?_, fun o => ?_⟩
    · rw [counted, number_begun]
      exact hs.count o
    · obtain hc | hc := List.mem_append.1 hc
      · exact hs.read c hc o n hphase
      · rw [List.mem_singleton.1 hc] at hphase
        cases hphase
    · rw [number_begun]
      exact hs.one o
  | stays hcounts => exact hs.of_same rfl hcounts
  | @calls _ h b b' e hcounts hget hts hb hb' hcaller =>
    have hput : (s.put h b').Exact := hs.put hget (registered_ne_ended hb) (registered_ne_ended hb')
      fun o n hphase => absurd hphase (registered_ne_counting hb' o n)
    exact hput.of_same rfl hcounts
  | @fails _ h b e hcounts hget hb hcaller =>
    have hput : (s.put h (b.goto .idle)).Exact := hs.put hget (registered_ne_ended hb) (by simp [Begun.goto]) (by simp [Begun.goto])
    exact hput.of_same rfl hcounts
  | @enters h b hget hb =>
    have hput : (s.put h (b.goto .idle)).Exact := hs.put hget (by simp [hb]) (by simp [Begun.goto]) (by simp [Begun.goto])
    exact hput.of_same rfl fun _ => rfl
  | @leaves h b o hget hb =>
    have hput : (s.put h (b.goto (.erased o))).Exact := hs.put hget (by simp [hb]) (by simp [Begun.goto]) (by simp [Begun.goto])
    exact hput.of_same rfl fun _ => rfl
  | marks hget hb => exact hs.put hget (by simp [hb]) (by simp [Begun.goto]) (by simp [Begun.goto])
  | @reads h b o hget hb =>
    refine hs.put hget (by simp [hb]) (by simp [Begun.goto]) fun o' n hphase => ?_
    cases hphase
    refine ⟨rfl, number_eq_zero.2 fun c hc => ?_⟩
    have hnone := halone b hget c hc
    rwa [hb] at hnone
  | writes hget hb => exact hs.writes hfew hget hb

end

/-! ## Runs -/

/-- A server that has started, with the tables it has recovered. -/
def started (tables : Tables) : Transactions := { engine := { tables := tables } }

theorem registered_started (tables : Tables) : (started tables).Registered where
  next := rfl
  timestamps := by simp [started]
  distinct := List.nodup_nil
  registered := by simp [started]
  size := rfl

theorem bounded_started (tables : Tables) : (started tables).Bounded where
  count o := by cases o <;> exact Nat.le_refl 0
  read := by simp [started]

theorem exact_started (tables : Tables) : (started tables).Exact where
  count o := by cases o <;> rfl
  read := by simp [started]
  one _ := Nat.zero_le 1

/-- **Every transaction is accounted for**, whatever callers do at the same time and whatever becomes of their commits. Those that have
been begun are in the map, between the map and a state, committed or aborted; the map has the active ones that are not between, and no
two have a timestamp in common. The counters say at most how many have been counted, and that number where no two calls have counted at
the same time. -/
theorem transactions_accounted (env : Env) (feed : Bool) (tables : Tables) (labels : List Label) (s : Transactions)
    (hfew : Allowed (step env feed) Few (started tables) labels) (hrun : run (step env feed) (started tables) labels = some s) :
    s.txns.length = s.active.length + s.number Phase.between +
      (s.number (fun p => p.state = .committed) + s.number fun p => p.state = .aborted) ∧
    (∀ ts h, (ts, h) ∈ s.active ↔ ∃ b, s.txns[h]? = some b ∧ b.txn.timestamp = ts ∧ b.txn.state = .active ∧ b.phase.between = false) ∧
    (∀ (h k : Nat) (b c : Begun), s.txns[h]? = some b → s.txns[k]? = some c → c.txn.timestamp = b.txn.timestamp → k = h) ∧
    (∀ o : Outcome, (o.count s.engine.stats).toNat ≤ s.counted o) ∧
    (Allowed (step env feed) Alone (started tables) labels → ∀ o : Outcome, (o.count s.engine.stats).toNat = s.counted o) := by
  obtain ⟨hreg, hbound⟩ := run_invariant (fun s : Transactions => s.Registered ∧ s.Bounded)
    (fun s l s' hs hl hstep => ⟨hs.1.moves hl (step_cases hstep), hs.2.moves (step_cases hstep)⟩)
    ⟨registered_started tables, bounded_started tables⟩ hfew hrun
  refine ⟨?_, fun ts h => ?_, fun h k b c hget hk => hreg.eq_of_timestamp hget hk, hbound.count, fun halone => ?_⟩
  · rw [hreg.size]
    exact length_eq_number
  · rw [hreg.registered]
    refine exists_congr fun b => and_congr_right fun _ => and_congr_right fun _ => ?_
    rw [b.agrees]
    cases b.phase with
    | marked o | counting o n | ended o => cases o <;> simp [Phase.registered, Phase.state, Phase.between, Outcome.state]
    | _ => simp [Phase.registered, Phase.state, Phase.between]
  · exact (run_invariant Exact (fun s l s' hs hl hstep => hs.moves hl.1 hl.2 (step_cases hstep)) (exact_started tables)
      (hfew.and halone) hrun).count

/-- Of two commits that read the counter before either has written it, one is not counted. -/
example : (run (step oneRowEnv true) (started ∅)
    [.begin, .begin, .proceed 0, .proceed 1, .commit 0 fun _ => 0, .commit 1 fun _ => 0, .proceed 0, .proceed 0, .proceed 0, .proceed 1,
      .proceed 1, .proceed 1, .proceed 0, .proceed 1]).map (fun s => (Outcome.committed.count s.engine.stats, s.counted .committed)) =
    some (1, 2) := by
  decide

/-! ## Commits that fail -/

/-- Who has seen his commit fail does nothing more with the transaction. -/
def LetsGo (s : Transactions) (l : Label) : Prop := s.Few l ∧ ∀ h ∈ l.caller, h ∉ s.failed

instance (s : Transactions) (l : Label) : Decidable (s.Few l) := inferInstanceAs (Decidable (_ < _))

instance (s : Transactions) (l : Label) : Decidable (s.LetsGo l) := inferInstanceAs (Decidable (_ ∧ _))

/-- The transactions that have been let go of: no call works on them, and there is one for each commit that has failed. -/
structure LetGo (s : Transactions) : Prop where
  once : s.failed.Nodup
  idle : ∀ h ∈ s.failed, ∃ b, s.txns[h]? = some b ∧ b.phase = .idle

section
variable {s s' : Transactions} {h : Nat} {b : Begun}

/-- What has been let go of is not worked on. -/
theorem LetGo.not_mem (hs : s.LetGo) (hget : s.txns[h]? = some b) (hb : b.phase ≠ .idle) : h ∉ s.failed := by
  intro hmem
  obtain ⟨c, hc, hidle⟩ := hs.idle h hmem
  rw [hget] at hc
  cases hc
  exact hb hidle

theorem LetGo.put (hs : s.LetGo) (hh : h ∉ s.failed) (b : Begun) : (s.put h b).LetGo := by
  refine ⟨hs.once, fun k hk => ?_⟩
  have hkh : k ≠ h := by
    rintro rfl
    exact hh hk
  rw [getElem?_put_ne hkh]
  exact hs.idle k hk

theorem LetGo.of_same (hs : s.LetGo) (htxns : s'.txns = s.txns) (hfailed : s'.failed = s.failed) : s'.LetGo := by
  refine ⟨hfailed ▸ hs.once, fun k hk => ?_⟩
  rw [htxns]
  exact hs.idle k (hfailed ▸ hk)

theorem LetGo.fail (hs : s.LetGo) (hget : s.txns[h]? = some b) (hh : h ∉ s.failed) : (s.fail h b).LetGo := by
  refine ⟨List.nodup_cons.2 ⟨hh, hs.once⟩, fun k hk => ?_⟩
  obtain rfl | hk := List.mem_cons.1 hk
  · exact ⟨_, getElem?_put_self hget _, rfl⟩
  · exact (hs.put hh (b.goto .idle)).idle k hk

theorem LetGo.moves {l : Label} (hs : s.LetGo) (hl : s.LetsGo l) (hmoves : Moves s l s') : s'.LetGo := by
  -- a call works on a transaction that waits, or its caller has not let go of it
  have hcalled : ∀ {h : Nat} {b : Begun}, s.txns[h]? = some b → b.phase = .waiting ∨ l.caller = some h → h ∉ s.failed := by
    rintro h b hget (hwaiting | hcaller)
    · exact hs.not_mem hget (by simp [hwaiting])
    · exact hl.2 h hcaller
  cases hmoves with
  | begins =>
    refine ⟨hs.once, fun k hk => ?_⟩
    obtain ⟨c, hc, hidle⟩ := hs.idle k hk
    exact ⟨c, getElem?_begun_old hc, hidle⟩
  | stays hcounts => exact hs.of_same rfl rfl
  | @calls _ h b b' e hcounts hget hts hb hb' hcaller => exact (hs.put (hcalled hget hcaller) b').of_same rfl rfl
  | @fails _ h b e hcounts hget hb hcaller => exact (hs.fail hget (hcalled hget hcaller)).of_same rfl rfl
  | @enters h b hget hb => exact (hs.put (hs.not_mem hget (by simp [hb])) (b.goto .idle)).of_same rfl rfl
  | @leaves h b o hget hb => exact (hs.put (hs.not_mem hget (by simp [hb])) (b.goto (.erased o))).of_same rfl rfl
  | marks hget hb | reads hget hb => exact hs.put (hs.not_mem hget (by simp [hb])) _
  | @writes h b o n hget hb => exact (hs.put (hs.not_mem hget (by simp [hb])) (b.goto (.ended o))).of_same rfl rfl

end

/-- **A failed commit leaves an entry behind.** When callers let go of a transaction whose commit has failed, the map of active
transactions has at least as many entries as commits of active transactions have returned false or thrown since the start: none of them
is ever taken out. -/
theorem failed_commits_stay (env : Env) (feed : Bool) (tables : Tables) (labels : List Label) (s : Transactions)
    (hall : Allowed (step env feed) LetsGo (started tables) labels) (hrun : run (step env feed) (started tables) labels = some s) :
    s.failures ≤ s.active.length := by
  obtain ⟨hreg, hgo⟩ := run_invariant (fun s : Transactions => s.Registered ∧ s.LetGo)
    (fun s l s' hs hl hstep => ⟨hs.1.moves hl.1 (step_cases hstep), hs.2.moves hl (step_cases hstep)⟩)
    ⟨registered_started tables, List.nodup_nil, by simp [started]⟩ hall hrun
  have hsub : s.failed ⊆ s.active.map Prod.snd := by
    intro h hh
    obtain ⟨b, hget, hidle⟩ := hgo.idle h hh
    exact List.mem_map.2 ⟨(b.txn.timestamp, h), (hreg.registered _ _).2 ⟨b, hget, rfl, by rw [hidle]; rfl⟩, rfl⟩
  have hlength := (List.subperm_of_subset hgo.once hsub).length_le
  rwa [List.length_map] at hlength

/-! ## Three transactions -/

/-- One is committed, one is rolled back, and one fails since its table is missing. -/
def threeTransactions : List Label :=
  [.begin, .begin, .begin, .proceed 2, .proceed 0, .proceed 1, .stage 2 ⟨.insert, str "t", { key := str "k" }⟩, .commit 2 fun _ => 0,
    .commit 0 fun _ => 0, .rollback 1, .proceed 0, .proceed 1, .proceed 0, .proceed 0, .proceed 0, .proceed 1, .proceed 1, .proceed 1]

instance (s : Transactions) (l : Label) : Decidable (s.Alone l) := by
  unfold Alone
  cases l <;> infer_instance

theorem threeTransactions_evaluated :
    (Allowed (step oneRowEnv true) Few (started ∅) threeTransactions ∧ Allowed (step oneRowEnv true) Alone (started ∅) threeTransactions ∧
      Allowed (step oneRowEnv true) LetsGo (started ∅) threeTransactions) ∧
    (run (step oneRowEnv true) (started ∅) threeTransactions).map (fun s => (s.txns.length, s.counted .committed, s.failures)) =
      some (3, 1, 1) := by
  decide

theorem transactions_accounted_three : ∃ s, run (step oneRowEnv true) (started ∅) threeTransactions = some s ∧
    3 = s.active.length + s.number Phase.between +
      (s.number (fun p => p.state = .committed) + s.number fun p => p.state = .aborted) ∧
    (Outcome.committed.count s.engine.stats).toNat = 1 := by
  obtain ⟨⟨hfew, halone, -⟩, hrun⟩ := threeTransactions_evaluated
  obtain ⟨s, hs, hnumbers⟩ := Option.map_eq_some_iff.1 hrun
  obtain ⟨hlength, -, -, -, hexact⟩ := transactions_accounted oneRowEnv true ∅ threeTransactions s hfew hs
  simp only [Prod.mk.injEq] at hnumbers
  exact ⟨s, hs, by rw [← hlength, hnumbers.1], by rw [hexact halone, hnumbers.2.1]⟩

theorem failed_commits_stay_three : ∃ s, run (step oneRowEnv true) (started ∅) threeTransactions = some s ∧ 1 ≤ s.active.length := by
  obtain ⟨⟨-, -, hall⟩, hrun⟩ := threeTransactions_evaluated
  obtain ⟨s, hs, hnumbers⟩ := Option.map_eq_some_iff.1 hrun
  have hstay := failed_commits_stay oneRowEnv true ∅ threeTransactions s hall hs
  simp only [Prod.mk.injEq] at hnumbers
  exact ⟨s, hs, by rwa [hnumbers.2.2] at hstay⟩

end Transactions

end OriginDB
