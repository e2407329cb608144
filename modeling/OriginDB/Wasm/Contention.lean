import OriginDB.Lib.Machine
import OriginDB.Wasm.StagedWrites
/-!
# Several modules commit at once (`CommitHostCall`, `host_functions.cpp:549-615`)

`call_mutex` is one a module, so the `CommitHostCall`s of different modules run side by side. Each looks
for its tables and creates those that are missing, asks `Get` for every key whether it is to be an UPDATE
or an INSERT, and then commits; the storage engine is free for the others between any two of these. An
INSERT whose key has come up meanwhile is resolved as an UPDATE by `Commit`. An UPDATE whose key has gone
is refused, and the call fails, although all it asked for was an upsert.

| here | there |
| --- | --- |
| `check`, `create`, `recheck` | the loop over the tables (`:558-570`): `GetTable`, `CreateTable`, `GetTable` |
| `stage`                      | the loop over the keys (`:577-592`), one `Get` a step; at its end `Commit` (`:595`) |
| `publish`                    | the events of the commit, once its batch is durable |
| `emit`                       | the custom events (`:602-613`) |

Every batch becomes durable and no table is dropped.
-/
namespace OriginDB

open JsonDoc ByteCodec Machine Lists

namespace Wasm

inductive CallPhase where
  | check (todo : List (Bytes × StrMap (Option Json)))
  | create (table : Bytes) (v : Json) (todo : List (Bytes × StrMap (Option Json)))
  | recheck (table : Bytes) (todo : List (Bytes × StrMap (Option Json)))
  | stage (ts : UInt64) (todo : List (Bytes × Bytes × Option Json)) (staged : List WriteOperation)
  | publish (todo : List ChangefeedEvent)
  | emit (todo : List StagedEvent)
  | done (result : Except Bytes Unit)
  | threw

/-- A `CommitHostCall` on its way. -/
structure CommittingCall where
  moduleName : Bytes
  call : HostCallContext
  phase : CallPhase

namespace CommittingCall

def start (moduleName : Bytes) (call : HostCallContext) : CommittingCall where
  moduleName := moduleName
  call := call
  phase := if call.overlay.isEmpty then .emit call.events else .check call.overlay.toList

/-- The next step of a call, until it is over. -/
def advance (env : Env) (maxLag : Nat) (clock : Nat → UInt64) (c : CommittingCall) (s : Store) : Option (CallPhase × Store) :=
  match c.phase with
  | .check [] => some (.stage s.nextTimestamp c.call.overlay.entries [], { s with nextTimestamp := s.nextTimestamp + 1 })
  | .check ((table, writes) :: todo) =>
    if (s.getTable table).isSome then some (.check todo, s)
    else match firstWrite writes with
      | none => some (.check todo, s)
      | some v => some (.create table v todo, s)
  | .create table v todo =>
    match s.createTable env (schemaFromJson table v) with
    | .threw s => some (.threw, s)
    | .returned true s => some (.check todo, s)
    | .returned false s => some (.recheck table todo, s)
  | .recheck table todo =>
    if (s.getTable table).isSome then some (.check todo, s)
    else some (.done (.error (str "failed to auto-create table: " ++ table)), s)
  | .stage ts (x :: todo) staged =>
    match stageWrite env.toJsonLib s x with
    | none => some (.threw, s)
    | some w => some (.stage ts todo (staged ++ [w]), s)
  | .stage ts [] staged =>
    match OriginDB.commit env true clock s.engine { timestamp := ts, writeSet := staged } with
    | .notActive => some (.done (.error (str "transaction commit failed")), s)
    | .nothingToWrite => some (.publish [], s)
    | .rejected e => some (.done (.error (str "transaction commit failed")), { s with engine := e })
    | .threw e => some (.threw, { s with engine := e })
    | .submitted e _ events => some (.publish events, { s with engine := e })
  | .publish (ev :: todo) => some (.publish todo, s.publishAll maxLag (clock 0) [ev])
  | .publish [] => some (.emit c.call.events, s.countCommit)
  | .emit (ev :: todo) => some (.emit todo, s.publishAll maxLag (clock 0) [customEvent c.moduleName (clock 0) ev])
  | .emit [] => some (.done (.ok ()), s)
  | .done _ | .threw => none

end CommittingCall

structure Contention where
  store : Store
  calls : List CommittingCall := []

namespace Contention

inductive Label where
  | arrive (moduleName : Bytes) (call : HostCallContext)
  | advance (i : Nat) (clock : Nat → UInt64)

def step (env : Env) (maxLag : Nat) (s : Contention) : Label → Option Contention
  | .arrive moduleName call => some { s with calls := s.calls ++ [.start moduleName call] }
  | .advance i clock =>
    match s.calls[i]? with
    | none => none
    | some c => (c.advance env maxLag clock s.store).map fun p =>
        { store := p.2, calls := s.calls.set i { c with phase := p.1 } }

end Contention

/-! ## The condition -/

/-- Nothing is staged but writes. -/
def Overlay.WritesOnly (o : Overlay) : Prop := ∀ x ∈ o.entries, x.2.2 ≠ none

instance (o : Overlay) : Decidable o.WritesOnly := inferInstanceAs (Decidable (∀ x ∈ o.entries, x.2.2 ≠ none))

/-- Nothing gets in the way of the next step: a row that is to be updated is still there when the call
commits. Besides, the JSON library can print what it is given. -/
def CommittingCall.Unhindered (J : JsonLib) (s : Store) (c : CommittingCall) : Prop :=
  match c.phase with
  | .create table v _ => s.getTable table = none → (serializeSchema J (schemaFromJson table v)).isSome = true
  | .stage _ (x :: _) _ => ∀ v ∈ x.2.2, (jsonToRow J x.2.1 v).isSome = true
  | .stage _ [] staged => ∀ w ∈ staged,
      (w.op = .update → (s.get w.tableName w.row.key).isSome = true) ∧
      (serializeRow J w.row).isSome = true ∧
      ∀ r ∈ s.get w.tableName w.row.key, (serializeRow J r).isSome = true
  | _ => True

/-- A call that stages writes only is not hindered. -/
def Contention.Unhindered (J : JsonLib) (s : Contention) : Contention.Label → Prop
  | .arrive _ _ => True
  | .advance i _ => ∀ c ∈ s.calls[i]?, c.call.overlay.WritesOnly → c.Unhindered J s.store

instance (J : JsonLib) (s : Store) : (c : CommittingCall) → Decidable (c.Unhindered J s)
  | ⟨_, _, .create table v _⟩ => inferInstanceAs
      (Decidable (s.getTable table = none → (serializeSchema J (schemaFromJson table v)).isSome = true))
  | ⟨_, _, .stage _ (x :: _) _⟩ => inferInstanceAs (Decidable (∀ v ∈ x.2.2, (jsonToRow J x.2.1 v).isSome = true))
  | ⟨_, _, .stage _ [] staged⟩ => inferInstanceAs (Decidable (∀ w ∈ staged, _ ∧ _ ∧ _))
  | ⟨_, _, .check _⟩ | ⟨_, _, .recheck _ _⟩ | ⟨_, _, .publish _⟩ | ⟨_, _, .emit _⟩ | ⟨_, _, .done _⟩ | ⟨_, _, .threw⟩ =>
    isTrue trivial

instance (J : JsonLib) (s : Contention) (l : Contention.Label) : Decidable (s.Unhindered J l) :=
  match l with
  | .arrive _ _ => isTrue trivial
  | .advance i _ => inferInstanceAs (Decidable (∀ c ∈ s.calls[i]?, c.call.overlay.WritesOnly → c.Unhindered J s.store))

/-! ## What a call goes through -/

/-- Every table with a staged write is there, or still to be looked for. -/
def TablesBut (s : Store) (o : Overlay) (P : Bytes × StrMap (Option Json) → Prop) : Prop :=
  ∀ p ∈ o.toList, (firstWrite p.2).isSome = true → P p ∨ (s.getTable p.1).isSome = true

/-- Where a call that stages writes only can be. -/
def CommittingCall.Sound (J : JsonLib) (s : Store) (c : CommittingCall) : Prop :=
  match c.phase with
  | .check todo => TablesBut s c.call.overlay (· ∈ todo)
  | .create table _ todo => TablesBut s c.call.overlay fun p => p ∈ todo ∨ p.1 = table
  | .recheck table todo => (s.getTable table).isSome = true ∧ TablesBut s c.call.overlay (· ∈ todo)
  | .stage _ todo staged => TablesBut s c.call.overlay (fun _ => False) ∧
      ∃ before, c.call.overlay.entries = before ++ todo ∧ List.Forall₂ (StagedAs J) before staged
  | .publish _ | .emit _ => True
  | .done r => r = .ok ()
  | .threw => False

/-- The steps a call has before it. -/
def CommittingCall.remaining (c : CommittingCall) : Nat :=
  match c.phase with
  | .check todo => 3 * todo.length + 2 * c.call.overlay.entries.length + c.call.events.length + 4
  | .create _ _ todo => 3 * todo.length + 2 * c.call.overlay.entries.length + c.call.events.length + 6
  | .recheck _ todo => 3 * todo.length + 2 * c.call.overlay.entries.length + c.call.events.length + 5
  | .stage _ todo staged => 2 * todo.length + staged.length + c.call.events.length + 3
  | .publish todo => todo.length + c.call.events.length + 2
  | .emit todo => todo.length + 1
  | .done _ | .threw => 0

section Advance
variable {env : Env} {maxLag : Nat} {clock : Nat → UInt64} {c : CommittingCall} {s s' : Store} {phase : CallPhase}

theorem getTable_createTable {schema : TableSchema} {t : Bytes} (ht : (s.getTable t).isSome = true)
    (h : s.createTable env schema = .threw s' ∨ ∃ b, s.createTable env schema = .returned b s') :
    (s'.getTable t).isSome = true := by
  rcases createTable_cases env s schema with ⟨-, hc⟩ | ⟨-, s₁, -, htabs, hc⟩
  · rw [hc] at h
    rcases h with h | ⟨b, h⟩
    · cases h
    · cases h
      exact ht
  · have hs₁ : s₁ = s' := by
      rcases hc with ⟨-, hc⟩ | ⟨-, hc⟩
      all_goals
        rw [hc] at h
        rcases h with h | ⟨b, h⟩
        all_goals
          cases h
          try rfl
    subst hs₁
    rw [Store.getTable, htabs, OrdMap.getElem?_insert]
    split
    · rfl
    · exact ht

theorem getTable_commit {txn : Txn} {e : Engine} {t : Bytes} (ht : (s.getTable t).isSome = true)
    (h : (OriginDB.commit env true clock s.engine txn).engine s.engine = e) :
    (({ s with engine := e } : Store).getTable t).isSome = true := by
  subst h
  rw [Store.getTable, ← Option.isSome_map (f := MemTable.schema), commit_schemas, Option.isSome_map]
  exact ht

/-- No step takes a table away. -/
theorem getTable_advance (h : c.advance env maxLag clock s = some (phase, s')) {t : Bytes}
    (ht : (s.getTable t).isSome = true) : (s'.getTable t).isSome = true := by
  obtain ⟨name, call, ph⟩ := c
  cases ph with
  | check todo =>
    cases todo with
    | nil =>
      cases h
      exact ht
    | cons p todo =>
      simp only [CommittingCall.advance] at h
      split at h
      · cases h
        exact ht
      · split at h <;> cases h <;> exact ht
  | create table v todo =>
    simp only [CommittingCall.advance] at h
    split at h
    all_goals
      rename_i hc
      cases h
    · exact getTable_createTable ht (Or.inl hc)
    · exact getTable_createTable ht (Or.inr ⟨_, hc⟩)
    · exact getTable_createTable ht (Or.inr ⟨_, hc⟩)
  | recheck table todo =>
    simp only [CommittingCall.advance] at h
    split at h <;> cases h <;> exact ht
  | stage ts todo staged =>
    cases todo with
    | nil =>
      simp only [CommittingCall.advance] at h
      split at h
      · cases h
        exact ht
      · cases h
        exact ht
      all_goals
        rename_i hc
        cases h
        exact getTable_commit ht (by rw [hc]; rfl)
    | cons x todo =>
      simp only [CommittingCall.advance] at h
      split at h <;> cases h <;> exact ht
  | publish todo => cases todo <;> cases h <;> exact ht
  | emit todo => cases todo <;> cases h <;> exact ht
  | done r => cases h
  | threw => cases h

/-- Each step brings a call nearer to its end. -/
theorem remaining_advance (h : c.advance env maxLag clock s = some (phase, s')) :
    ({ c with phase := phase } : CommittingCall).remaining < c.remaining := by
  obtain ⟨name, call, ph⟩ := c
  cases ph with
  | check todo =>
    cases todo with
    | nil =>
      cases h
      simp [CommittingCall.remaining]
    | cons p todo =>
      simp only [CommittingCall.advance] at h
      split at h
      · cases h
        simp [CommittingCall.remaining]
      · split at h
        · cases h
          simp [CommittingCall.remaining]
        · cases h
          simp only [CommittingCall.remaining, List.length_cons]
          omega
  | create table v todo =>
    simp only [CommittingCall.advance] at h
    split at h <;> cases h <;> simp [CommittingCall.remaining]
  | recheck table todo =>
    simp only [CommittingCall.advance] at h
    split at h <;> cases h <;> simp [CommittingCall.remaining]
  | stage ts todo staged =>
    cases todo with
    | nil =>
      simp only [CommittingCall.advance] at h
      split at h
      case h_5 e entries events hc =>
        -- one event a write
        have hlen : staged.length = events.length := (events_of_commit hc).length_eq
        cases h
        simp only [CommittingCall.remaining, List.length_nil, hlen]
        omega
      all_goals
        cases h
        simp only [CommittingCall.remaining, List.length_nil]
        omega
    | cons x todo =>
      simp only [CommittingCall.advance] at h
      split at h
      all_goals
        cases h
        simp only [CommittingCall.remaining, List.length_cons, List.length_append, List.length_nil]
        omega
  | publish todo =>
    cases todo
    all_goals
      cases h
      simp only [CommittingCall.remaining, List.length_cons, List.length_nil]
      omega
  | emit todo => cases todo <;> cases h <;> simp [CommittingCall.remaining]
  | done r => cases h
  | threw => cases h

/-- What a call wrote is there. -/
def Overlay.Holds (J : JsonLib) (o : Overlay) (s : Store) : Prop :=
  ∀ t k v, o.find t k = some (some v) →
    ∃ row r, jsonToRow J k v = some row ∧ s.get t k = some r ∧ r.key = k ∧ r.columns = row.columns

theorem TablesBut.mono {o : Overlay} {P Q : Bytes × StrMap (Option Json) → Prop}
    (h : TablesBut s o P) (hpq : ∀ p, P p → (firstWrite p.2).isSome = true → Q p ∨ (s'.getTable p.1).isSome = true)
    (ht : ∀ t, (s.getTable t).isSome = true → (s'.getTable t).isSome = true) : TablesBut s' o Q := by
  intro p hp hf
  rcases h p hp hf with hP | hsome
  · exact hpq p hP hf
  · exact Or.inr (ht p.1 hsome)

/-- Other calls do not disturb it. -/
theorem CommittingCall.Sound.mono {J : JsonLib} (h : c.Sound J s)
    (ht : ∀ t, (s.getTable t).isSome = true → (s'.getTable t).isSome = true) : c.Sound J s' := by
  obtain ⟨name, call, ph⟩ := c
  cases ph with
  | check todo => exact TablesBut.mono h (fun p hp _ => Or.inl hp) ht
  | create table v todo => exact TablesBut.mono h (fun p hp _ => Or.inl hp) ht
  | recheck table todo => exact ⟨ht table h.1, h.2.mono (fun p hp _ => Or.inl hp) ht⟩
  | stage ts todo staged => exact ⟨h.1.mono (fun p hp _ => Or.inl hp) ht, h.2⟩
  | publish todo => trivial
  | emit todo => trivial
  | done r => exact h
  | threw => exact h

/-- An unhindered `Commit` takes all the writes. -/
theorem commit_unhindered (clock : Nat → UInt64) {moduleName : Bytes} {call : HostCallContext} {o : Overlay} {ts : UInt64}
    {staged : List WriteOperation} (hw : o.WritesOnly) (htabs : TablesBut s o fun _ => False) (hst : List.Forall₂ (StagedAs env.toJsonLib) o.entries staged)
    (hok : (CommittingCall.mk moduleName call (.stage ts [] staged)).Unhindered env.toJsonLib s) :
    (staged = [] ∧ o.Holds env.toJsonLib s) ∨
    ∃ e entries events, OriginDB.commit env true clock s.engine { timestamp := ts, writeSet := staged } = .submitted e entries events ∧
      o.Holds env.toJsonLib { s with engine := e } := by
  obtain ⟨-, hfrom⟩ := mem_of_forall₂ hst
  have happly : ∀ w ∈ staged, Applies env.toJsonLib s.engine.tables w := by
    intro w hmem
    obtain ⟨hupd, hnew, hold⟩ := hok w hmem
    obtain ⟨⟨t, k, v⟩, hx, hsw⟩ := hfrom w hmem
    obtain ⟨htable, hkey⟩ := WriteOperation.at_eq.1 hsw.at_eq
    obtain ⟨u, rfl⟩ : ∃ u, v = some u := Option.ne_none_iff_exists'.1 (hw _ hx)
    have hop : w.op ≠ .delete := fun hd => by cases hsw.op.1 hd
    refine ⟨?_, ?_, fun _ => hnew, fun r hr => hold r hr⟩
    · obtain ⟨writes, hwrites, hu⟩ := Option.bind_eq_some_iff.1 (mem_entries.1 hx)
      rw [htable]
      exact (htabs (t, writes) (Std.ExtTreeMap.mem_toList_iff_getElem?_eq_some.2 hwrites)
        (firstWrite_isSome.2 ⟨k, u, hu⟩)).resolve_left id
    · cases hwop : w.op with
      | insert => exact Or.inl rfl
      | update => exact Or.inr (hupd hwop)
      | delete => exact absurd hwop hop
  by_cases hnil : staged = []
  · refine Or.inl ⟨hnil, fun t k v hfind => ?_⟩
    subst hnil
    have hmem := mem_entries.2 hfind
    rw [List.forall₂_nil_right_iff.1 hst] at hmem
    cases hmem
  · obtain ⟨e, entries, events, hdone⟩ :=
      (applyWrites_done_iff env ts clock 0 s.engine (oncePerKey_staged hst)).2 happly
    refine Or.inr ⟨e, entries, events, by simp [OriginDB.commit, hnil, hdone], fun t k v hfind => ?_⟩
    have htables : ({ s with engine := e } : Store).engine.tables = e.tables := rfl
    have hget := get_of_staged hst ((After.refl clock s.engine).done hdone) htables t k
    rw [hfind] at hget
    exact hget

/-- The step of an unhindered call that stages writes only. -/
theorem CommittingCall.Sound.advance (hw : c.call.overlay.WritesOnly) (hs : c.Sound env.toJsonLib s)
    (hok : c.Unhindered env.toJsonLib s) (h : c.advance env maxLag clock s = some (phase, s')) :
    ({ c with phase := phase } : CommittingCall).Sound env.toJsonLib s' ∧
    ∀ ts staged, c.phase = .stage ts [] staged → (∃ todo, phase = .publish todo) ∧ c.call.overlay.Holds env.toJsonLib s' := by
  have hkeep : ∀ t, (s.getTable t).isSome = true → (s'.getTable t).isSome = true := fun t => getTable_advance h
  obtain ⟨name, call, ph⟩ := c
  cases ph with
  | check todo =>
    refine ⟨?_, by simp⟩
    cases todo with
    | nil =>
      cases h
      exact ⟨TablesBut.mono hs (fun p hp _ => by cases hp) hkeep, [], rfl, .nil⟩
    | cons p todo =>
      simp only [CommittingCall.advance] at h
      split at h
      · rename_i hsome
        cases h
        refine TablesBut.mono hs (fun q hq _ => ?_) hkeep
        rcases List.mem_cons.1 hq with rfl | hq
        · exact Or.inr hsome
        · exact Or.inl hq
      · split at h
        · rename_i hnone
          cases h
          refine TablesBut.mono hs (fun q hq hf => ?_) hkeep
          rcases List.mem_cons.1 hq with rfl | hq
          · rw [hnone] at hf
            cases hf
          · exact Or.inl hq
        · cases h
          refine TablesBut.mono hs (fun q hq _ => Or.inl ?_) hkeep
          rcases List.mem_cons.1 hq with rfl | hq
          · exact Or.inr rfl
          · exact Or.inl hq
  | create table v todo =>
    refine ⟨?_, by simp⟩
    simp only [CommittingCall.advance] at h
    have hname : (schemaFromJson table v).name = table := rfl
    rcases createTable_cases env s (schemaFromJson table v) with ⟨hthere, hc⟩ | ⟨hmiss, s₁, -, htabs, ⟨hnone, hc⟩ | ⟨-, hc⟩⟩
    · rw [hc] at h
      cases h
      refine ⟨hthere, TablesBut.mono hs (fun q hq _ => ?_) hkeep⟩
      rcases hq with hq | rfl
      · exact Or.inl hq
      · exact Or.inr hthere
    · -- the schema could not be printed
      have hprint := hok hmiss
      rw [hnone] at hprint
      cases hprint
    · rw [hc] at h
      cases h
      refine TablesBut.mono hs (fun q hq _ => ?_) hkeep
      rcases hq with hq | rfl
      · exact Or.inl hq
      · refine Or.inr ?_
        rw [Store.getTable, htabs, hname, OrdMap.getElem?_insert, if_pos rfl]
        rfl
  | recheck table todo =>
    refine ⟨?_, by simp⟩
    simp only [CommittingCall.advance, hs.1, if_true] at h
    cases h
    exact hs.2
  | stage ts todo staged =>
    obtain ⟨htabs, before, hentries, hst⟩ := hs
    cases todo with
    | nil =>
      simp only at hentries
      rw [List.append_nil] at hentries
      subst hentries
      simp only [CommittingCall.advance] at h
      rcases commit_unhindered clock hw htabs hst hok with ⟨rfl, hholds⟩ | ⟨e, entries, events, hc, hholds⟩
      · simp only [OriginDB.commit, ne_eq, not_true_eq_false, if_false, if_true] at h
        cases h
        exact ⟨trivial, fun _ _ _ => ⟨⟨_, rfl⟩, hholds⟩⟩
      · rw [hc] at h
        cases h
        exact ⟨trivial, fun _ _ _ => ⟨⟨_, rfl⟩, hholds⟩⟩
    | cons x todo =>
      refine ⟨?_, by simp⟩
      simp only [CommittingCall.advance] at h
      have hsome : (stageWrite env.toJsonLib s x).isSome = true := by
        obtain ⟨t, k, v⟩ := x
        cases v with
        | none => rfl
        | some v => simpa [stageWrite] using hok v rfl
      obtain ⟨w, hw'⟩ := Option.isSome_iff_exists.1 hsome
      rw [hw'] at h
      cases h
      exact ⟨htabs, before ++ [x], by rw [hentries]; simp, List.rel_append hst (.cons (stagedAs_stageWrite hw') .nil)⟩
  | publish todo => cases todo <;> cases h <;> exact ⟨trivial, by simp⟩
  | emit todo =>
    refine ⟨?_, by simp⟩
    cases todo with
    | nil =>
      cases h
      rfl
    | cons ev todo =>
      cases h
      trivial
  | done r => cases h
  | threw => cases h

end Advance

/-! ## Whole runs -/

namespace Contention

/-- What a step means for the calls that stage writes only. -/
structure Upserts (env : Env) (maxLag : Nat) (s : Contention) (l : Label) (s' : Contention) : Prop where
  /-- None has failed: each has committed, or can go on. -/
  alive : ∀ (i : Nat) (c : CommittingCall), s'.calls[i]? = some c → c.call.overlay.WritesOnly →
    c.phase = .done (.ok ()) ∨ ∀ clock, (step env maxLag s' (.advance i clock)).isSome = true
  /-- None goes on for ever. -/
  nearer : ∀ i clock c c', l = .advance i clock → s.calls[i]? = some c → s'.calls[i]? = some c' → c'.remaining < c.remaining
  /-- After its `Commit`, what a call wrote is there. -/
  holds : ∀ i clock c ts staged, l = .advance i clock → s.calls[i]? = some c → c.call.overlay.WritesOnly →
    c.phase = .stage ts [] staged →
    (∃ c' todo, s'.calls[i]? = some c' ∧ c'.phase = .publish todo) ∧ c.call.overlay.Holds env.toJsonLib s'.store

def Sound (J : JsonLib) (s : Contention) : Prop := ∀ c ∈ s.calls, c.call.overlay.WritesOnly → c.Sound J s.store

section
variable {env : Env} {maxLag : Nat} {s s' : Contention} {l : Label}

theorem sound_start (J : JsonLib) (moduleName : Bytes) (call : HostCallContext) (st : Store) :
    (CommittingCall.start moduleName call).Sound J st := by
  unfold CommittingCall.start
  split
  · trivial
  · exact fun p hp _ => Or.inl hp

/-- A call that is where it can be has committed, or can go on. -/
theorem alive_of_sound {i : Nat} {c : CommittingCall} (hc : s.calls[i]? = some c) (h : c.Sound env.toJsonLib s.store) :
    c.phase = .done (.ok ()) ∨ ∀ clock, (step env maxLag s (.advance i clock)).isSome = true := by
  simp only [step, hc, Option.isSome_map]
  obtain ⟨name, call, ph⟩ := c
  cases ph with
  | done r => exact Or.inl (congrArg CallPhase.done h)
  | threw => exact h.elim
  | check todo =>
    refine Or.inr fun clock => ?_
    cases todo with
    | nil => rfl
    | cons p todo =>
      simp only [CommittingCall.advance]
      split
      · rfl
      · split <;> rfl
  | create table v todo =>
    refine Or.inr fun clock => ?_
    simp only [CommittingCall.advance]
    split <;> rfl
  | recheck table todo =>
    refine Or.inr fun clock => ?_
    simp only [CommittingCall.advance]
    split <;> rfl
  | stage ts todo staged =>
    refine Or.inr fun clock => ?_
    cases todo <;> simp only [CommittingCall.advance] <;> split <;> rfl
  | publish todo => exact Or.inr fun clock => by cases todo <;> rfl
  | emit todo => exact Or.inr fun clock => by cases todo <;> rfl

theorem Sound.step (h : s.Sound env.toJsonLib) (hok : s.Unhindered env.toJsonLib l) (hstep : step env maxLag s l = some s') :
    s'.Sound env.toJsonLib ∧ Upserts env maxLag s l s' := by
  cases l with
  | arrive moduleName call =>
    cases hstep
    have hs' : Sound env.toJsonLib { s with calls := s.calls ++ [.start moduleName call] } := by
      intro c hc hw
      rcases List.mem_append.1 hc with hc | hc
      · exact h c hc hw
      · rw [List.mem_singleton.1 hc]
        exact sound_start _ _ _ _
    exact ⟨hs', fun i c hc hw => alive_of_sound hc (hs' c (List.mem_of_getElem? hc) hw), by simp, by simp⟩
  | advance i clock =>
    simp only [Contention.step] at hstep
    split at hstep
    · cases hstep
    · rename_i c hc
      obtain ⟨⟨phase, st⟩, hadv, rfl⟩ := Option.map_eq_some_iff.1 hstep
      have hmem := List.mem_of_getElem? hc
      have hi : i < s.calls.length := (List.getElem?_eq_some_iff.1 hc).1
      have hself : (s.calls.set i { c with phase := phase })[i]? = some { c with phase := phase } := by
        rw [List.getElem?_set_self hi]
      have hs' : Sound env.toJsonLib { store := st, calls := s.calls.set i { c with phase := phase } } := by
        intro d hd hw
        rcases List.mem_or_eq_of_mem_set hd with hd | rfl
        · exact (h d hd hw).mono fun t => getTable_advance hadv
        · have hw : c.call.overlay.WritesOnly := hw
          exact ((h c hmem hw).advance hw (hok c hc hw) hadv).1
      refine ⟨hs', fun j d hd hw => alive_of_sound hd (hs' d (List.mem_of_getElem? hd) hw), ?_, ?_⟩
      · rintro j clock' d d' ⟨⟩ hd hd'
        rw [hc] at hd
        cases hd
        rw [hself] at hd'
        cases hd'
        exact remaining_advance hadv
      · rintro j clock' d ts staged ⟨⟩ hd hw hphase
        rw [hc] at hd
        cases hd
        obtain ⟨⟨todo, rfl⟩, hholds⟩ := ((h c hmem hw).advance hw (hok c hc hw) hadv).2 ts staged hphase
        exact ⟨⟨_, todo, hself, rfl⟩, hholds⟩

/-- **Upserts commit under contention** in every run in which no row that is to be updated has gone before
the commit. -/
theorem upserts_commit (env : Env) (maxLag : Nat) (store : Store) (ls : List Label)
    (hok : Allowed (Contention.step env maxLag) (Contention.Unhindered env.toJsonLib) { store := store } ls) :
    Steps (Contention.step env maxLag) (Upserts env maxLag) { store := store } ls := by
  have h0 : Sound env.toJsonLib { store := store } := by
    intro c hc
    cases hc
  have hstep : ∀ s l s', Sound env.toJsonLib s → s.Unhindered env.toJsonLib l → Contention.step env maxLag s l = some s' →
      Sound env.toJsonLib s' ∧ Upserts env maxLag s l s' := fun _ _ _ hs hl hstep => hs.step hl hstep
  exact run_steps (Sound env.toJsonLib) hstep h0 hok

end

/-- Table `t` with row `k`. -/
def withK : Store := { engine := { tables := oneRow (.int64 5) } }

/-- Two modules: one writes `k` and has staged its UPDATE, the other deletes `k` and is about to commit. -/
def bothStaged : List Label :=
  [.arrive (str "a") (callAll fiveEnv.toJsonLib {} [.write (str "t") (str "k") five]),
   .arrive (str "b") (callAll fiveEnv.toJsonLib {} [.delete (str "t") (str "k")])] ++
  [0, 0, 0, 1, 1, 1].map fun i => .advance i fun _ => 0

/-- The writer commits first. -/
def writerFirst : List Label := bothStaged ++ [0, 0, 0, 0, 1].map fun i => .advance i fun _ => 0

theorem upserts_commit_writerFirst :
    ((run (step fiveEnv 100000) { store := withK } writerFirst).map fun s => s.calls.length) = some 2 ∧
    Steps (step fiveEnv 100000) (Upserts fiveEnv 100000) { store := withK } writerFirst :=
  ⟨by decide, upserts_commit fiveEnv 100000 withK writerFirst (by decide)⟩

/-- The delete lands between the writer's `Get` and its `Commit`. -/
def deleteFirst : List Label := bothStaged ++ [1, 0].map fun i => .advance i fun _ => 0

def error : CallPhase → Option Bytes
  | .done (.error e) => some e
  | _ => none

/-- The writer fails, and nothing is under `k`. -/
theorem upsert_refused : ∃ s ∈ run (step fiveEnv 100000) { store := withK } deleteFirst,
    (∃ c ∈ s.calls[0]?, c.call.overlay.WritesOnly ∧ error c.phase = some (str "transaction commit failed")) ∧
    (s.store.get (str "t") (str "k")).isSome = false := by
  decide

end Contention

end Wasm

end OriginDB
