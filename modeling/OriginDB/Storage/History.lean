import OriginDB.Storage.Atomicity
import OriginDB.Storage.Logging
/-!
# The log as a history of changes

One batch of the log stands for one change of the database. `Mirrors` is the correspondence: the first
`j` batches, replayed, are the first `j` changes. The rest of the module is what recovery makes of a
snapshot and a log that do not end at the same change: at every location it arrives at one of the two
(`cell_recover`), and at the log's end when the log reaches at least as far as the snapshot.
-/
namespace OriginDB

open JsonDoc ByteCodec GuardedReplay

/-! ## Tables filed under their own names -/

section Keyed
variable {T : Tables}

theorem WellKeyed.empty : WellKeyed ∅ := ⟨fun n t h => by simp at h, fun n t h => by simp at h⟩

theorem WellKeyed.insert (h : WellKeyed T) {n : Bytes} {t : MemTable} (hn : t.schema.name = n)
    (hk : ∀ (k : Bytes) (r : Row), t.rows[k]? = some r → r.key = k) : WellKeyed (T.insert n t) := by
  constructor
  · intro m u hu
    rw [OrdMap.getElem?_insert] at hu
    split at hu
    · rename_i hm
      cases hu
      exact hn.trans hm
    · exact h.name m u hu
  · intro m u hu
    rw [OrdMap.getElem?_insert] at hu
    split at hu
    · cases hu
      exact hk
    · exact h.key m u hu

theorem WellKeyed.erase (h : WellKeyed T) (n : Bytes) : WellKeyed (T.erase n) := by
  have hsub : ∀ (m : Bytes) (u : MemTable), (T.erase n)[m]? = some u → T[m]? = some u := by
    intro m u hu
    rw [OrdMap.getElem?_erase] at hu
    split at hu
    · cases hu
    · exact hu
  exact ⟨fun m u hu => h.name m u (hsub m u hu), fun m u hu => h.key m u (hsub m u hu)⟩

theorem keyed_insert {rows : StrMap Row} (h : ∀ (k : Bytes) (r : Row), rows[k]? = some r → r.key = k) (row : Row) :
    ∀ (k : Bytes) (r : Row), (rows.insert row.key row)[k]? = some r → r.key = k := by
  intro k r hr
  rw [OrdMap.getElem?_insert] at hr
  split at hr
  · rename_i hk
    cases hr
    exact hk
  · exact h k r hr

theorem WellKeyed.applyWrite {e e' : Engine} {w : WriteOperation} {now : UInt64} {old : Option Row}
    (h : WellKeyed e.tables) (hw : applyWrite e w now = some (e', old)) : WellKeyed e'.tables := by
  obtain ⟨t, t', ht, htabs, hs, hcase⟩ := applyWrite_eq_some hw
  have hk := h.key _ t ht
  rw [htabs]
  refine h.insert (hs ▸ h.name _ t ht) ?_
  rcases hcase with ⟨-, -, hr, -⟩ | ⟨-, -, r, -, hr⟩ | ⟨-, -, hr, -⟩
  · rw [hr]
    exact keyed_insert hk w.row
  · rw [hr]
    exact keyed_insert hk { w.row with version := r.version + 1, timestamp := now }
  · intro k r hkr
    rw [hr, OrdMap.getElem?_erase] at hkr
    split at hkr
    · cases hkr
    · exact hk k r hkr

theorem WellKeyed.applyWrites {env : Env} {feed : Bool} {ts : UInt64} {clock : Nat → UInt64} {i : Nat}
    {e e' : Engine} {ws : List WriteOperation} {entries : List WALEntry} {events : List ChangefeedEvent}
    (hk : WellKeyed e.tables) (h : applyWrites env feed ts clock i e ws = .done e' entries events) :
    WellKeyed e'.tables := by
  induction ws generalizing e i entries events with
  | nil =>
    simp only [OriginDB.applyWrites, Applied.done.injEq] at h
    obtain ⟨rfl, -, -⟩ := h
    exact hk
  | cons w ws ih =>
    simp only [OriginDB.applyWrites] at h
    split at h
    · cases h
    · rename_i e₁ old hw
      split at h
      · cases h
      · split at h
        · rename_i hrest
          cases h
          exact ih (hk.applyWrite hw) hrest
        · cases h
        · cases h

theorem WellKeyed.sameContents {e e' : Engine} (h : WellKeyed e.tables) (hs : SameContents e e') :
    WellKeyed e'.tables := by
  have hfind : ∀ (n : Bytes) (t' : MemTable), e'.tables[n]? = some t' →
      ∃ t, e.tables[n]? = some t ∧ t.schema = t'.schema ∧ t.rows = t'.rows := by
    intro n t' ht'
    have hn := hs.tables n
    rw [ht'] at hn
    cases ht : e.tables[n]? with
    | none => rw [ht] at hn; cases hn
    | some t =>
      rw [ht] at hn
      simp only [Option.map_some, Option.some.injEq, Prod.mk.injEq] at hn
      exact ⟨t, rfl, hn.1.symm, hn.2.symm⟩
  constructor
  · intro n t' ht'
    obtain ⟨t, ht, hsch, -⟩ := hfind n t' ht'
    rw [← hsch]
    exact h.name n t ht
  · intro n t' ht'
    obtain ⟨t, ht, -, hrows⟩ := hfind n t' ht'
    rw [← hrows]
    exact h.key n t ht

theorem view_sameContents {e e' : Engine} (hs : SameContents e e') : view e'.tables = view e.tables := by
  funext n
  have hn := congrArg (Option.map fun p : TableSchema × StrMap Row => (p.1, fun k : Bytes => p.2[k]?.map Row.columns))
    (hs.tables n)
  simpa [view, viewBy, Option.map_map, Function.comp_def] using hn

theorem foldlM_invariant {α β : Type} {f : β → α → Option β} (P : β → Prop)
    (hstep : ∀ b a b', P b → f b a = some b' → P b') {l : List α} {b b' : β} (hb : P b)
    (h : l.foldlM f b = some b') : P b' := by
  induction l generalizing b with
  | nil => cases h; exact hb
  | cons a l ih =>
    rw [List.foldlM_cons] at h
    obtain ⟨b₁, h₁, h⟩ := Option.bind_eq_some_iff.1 h
    exact ih (hstep b a b₁ hb h₁) h

theorem keyed_loadTable {J : JsonLib} {j : Json} {t : MemTable} (h : loadTable J j = some t) :
    ∀ (k : Bytes) (r : Row), t.rows[k]? = some r → r.key = k := by
  obtain ⟨_, -, h⟩ := Option.bind_eq_some_iff.1 h
  obtain ⟨schema, -, h⟩ := Option.bind_eq_some_iff.1 h
  obtain ⟨rows, -, h⟩ := Option.bind_eq_some_iff.1 h
  refine foldlM_invariant (fun t => ∀ (k : Bytes) (r : Row), t.rows[k]? = some r → r.key = k) ?_ ?_ h
  · intro t j t' ht hj
    obtain ⟨_, -, hj⟩ := Option.bind_eq_some_iff.1 hj
    obtain ⟨row, -, hj⟩ := Option.bind_eq_some_iff.1 hj
    cases hj
    rw [(insert_getD_rows t row).2]
    split
    · exact ht
    · exact keyed_insert ht row
  · intro k r hr
    simp at hr

/-- Whatever a snapshot says, loading it files every table and row under its own name. -/
theorem wellKeyed_loadSnapshot {J : JsonLib} {snap : Option Bytes} {e : Engine}
    (h : loadSnapshotIfPresent J {} snap = some e) : WellKeyed e.tables := by
  unfold loadSnapshotIfPresent at h
  split at h
  · cases h
    exact WellKeyed.empty
  · split at h
    · cases h
      exact WellKeyed.empty
    · split at h
      · obtain ⟨ts, -, h⟩ := Option.bind_eq_some_iff.1 h
        refine foldlM_invariant (fun e => WellKeyed e.tables) ?_ WellKeyed.empty h
        intro e j e' he hj
        obtain ⟨t, ht, hj⟩ := Option.bind_eq_some_iff.1 hj
        obtain ⟨rows, -, hj⟩ := Option.bind_eq_some_iff.1 hj
        cases hj
        exact he.insert rfl (keyed_loadTable ht)
      · cases h
        exact WellKeyed.empty

end Keyed

/-! ## Operations that reach the log -/

/-- An operation under the tables lock, with the batch it hands to the log and the engine it leaves. -/
inductive Logs (env : Env) (feed : Bool) (e : Engine) : Change → List WALEntry → Engine → Prop where
  | commit {txn : Txn} {clock : Nat → UInt64} {entries : List WALEntry} {events : List ChangefeedEvent} {e' : Engine}
      (h : applyWrites env feed txn.timestamp clock 0 e txn.writeSet = .done e' entries events) :
      Logs env feed e (.commit txn.writeSet) entries e'
  | create {schema : TableSchema} {entry : WALEntry} {e' : Engine}
      (h : createTable env.toJsonLib e schema = .logged e' entry) : Logs env feed e (.create schema) [entry] e'
  | drop {name : Bytes} {entry : WALEntry} {e' : Engine} (h : dropTable e name = some (e', entry)) :
      Logs env feed e (.drop name) [entry] e'

/-- The INSERTs of a change are fresh. -/
def Change.Fresh (strict : Bool) (db : Db) : Change → Prop
  | .commit ws => InsertsFresh strict db ws
  | _ => True

section Logs
variable {env : Env} {feed : Bool} {e e' : Engine} {c : Change} {entries : List WALEntry}

theorem Logs.view_eq (h : Logs env feed e c entries e') : view e'.tables = (view e.tables).act c := by
  cases h with
  | commit h => exact (view_applyWrites h).1
  | create h => exact (view_createTable h).1
  | drop h => exact (view_dropTable h).1

theorem Logs.wellKeyed (h : Logs env feed e c entries e') (hk : WellKeyed e.tables) : WellKeyed e'.tables := by
  cases h with
  | commit h => exact hk.applyWrites h
  | create h =>
    unfold createTable at h
    split at h
    · cases h
    · simp only at h
      split at h
      · cases h
      · cases h
        exact hk.insert rfl fun k r hr => by simp at hr
  | drop h =>
    unfold dropTable at h
    split at h
    · cases h
    · cases h
      exact hk.erase _

/-- **The batch means the change**, when its INSERTs are fresh and its records fit. -/
theorem Logs.logged {strict : Bool} (h : Logs env feed e c entries e') (hfresh : c.Fresh strict (view e.tables))
    (hfits : ∀ entry ∈ entries, (recordBytes entry).length < 2 ^ 32) :
    Logged env.toJsonLib (view e.tables) entries (view e'.tables) ∧
      (strict = true → Fires env.toJsonLib (view e.tables) entries) := by
  cases h with
  | commit h =>
    refine logged_applyWrites h (fun w hw => ?_) hfresh
    rw [(view_applyWrites h).2] at hfits
    exact fits_of_writeEntry (hfits _ (List.mem_map_of_mem hw))
  | create h =>
    obtain ⟨hv, hnone, hdata, hentry⟩ := view_createTable h
    obtain ⟨hl, hf⟩ := logged_create hnone (deserializeSchema_serializeSchema env.toJsonLib hdata)
    rw [← hentry, ← hv] at hl
    rw [← hentry] at hf
    exact ⟨hl, fun _ => hf⟩
  | drop h =>
    obtain ⟨hv, hsome, hentry⟩ := view_dropTable h
    obtain ⟨hl, hf⟩ := logged_drop (J := env.toJsonLib) hsome
    rw [← hentry, ← hv] at hl
    rw [← hentry] at hf
    exact ⟨hl, fun _ => hf⟩

end Logs

/-! ## Changes and batches -/

/-- The first `j` of `m` batches are the first `j` changes; when `strict`, every entry of them takes effect. -/
structure Mirrors (J : JsonLib) (strict : Bool) (db : Db) (changes : List Change) (batches : List (List WALEntry))
    (m : Nat) : Prop where
  logged : ∀ j ≤ m, Logged J db (batches.take j).flatten (db.after (changes.take j))
  fires : strict = true → Fires J db (batches.take m).flatten

section Mirrors
variable {J : JsonLib} {strict : Bool} {db : Db} {changes : List Change} {batches : List (List WALEntry)} {m : Nat}

theorem Mirrors.nil : Mirrors J strict db [] [] 0 :=
  ⟨fun j _ => by simpa using Logged.nil J db, fun _ => Fires.nil J db⟩

/-- Later changes leave the first ones alone. -/
theorem Mirrors.more (h : Mirrors J strict db changes batches m) (hc : m ≤ changes.length) (hb : m ≤ batches.length)
    (cs : List Change) (bs : List (List WALEntry)) : Mirrors J strict db (changes ++ cs) (batches ++ bs) m := by
  refine ⟨fun j hj => ?_, fun hs => ?_⟩
  · rw [List.take_append_of_le_length (by omega), List.take_append_of_le_length (by omega)]
    exact h.logged j hj
  · rw [List.take_append_of_le_length hb]
    exact h.fires hs

/-- One more change and its batch. -/
theorem Mirrors.extend (h : Mirrors J strict db changes batches m) (hc : changes.length = m) (hb : batches.length = m)
    {c : Change} {b : List WALEntry} (hl : Logged J (db.after changes) b ((db.after changes).act c))
    (hf : strict = true → Fires J (db.after changes) b) :
    Mirrors J strict db (changes ++ [c]) (batches ++ [b]) (m + 1) := by
  have hold := h.logged m (Nat.le_refl m)
  rw [List.take_of_length_le (by omega), List.take_of_length_le (by omega)] at hold
  refine ⟨fun j hj => ?_, fun hs => ?_⟩
  · by_cases hjm : j ≤ m
    · exact (h.more (by omega) (by omega) [c] [b]).logged j hjm
    · rw [List.take_of_length_le (by simp; omega), List.take_of_length_le (by simp; omega), DbOf.after_concat,
        List.flatten_append]
      simpa using hold.append hl
  · rw [List.take_of_length_le (by simp; omega), List.flatten_append]
    have hfire := h.fires hs
    rw [List.take_of_length_le (by omega)] at hfire
    simpa using hfire.append hold (hf hs)

end Mirrors

/-! ## Logs cut by a crash -/

/-- The cut after `n` bytes of records falls inside a batch, behind its first record. -/
def Splits : List (List WALEntry) → Nat → Bool
  | [], _ => false
  | b :: bs, n => if n < (recordsBytes b).length then 0 < wholeRecords b n else Splits bs (n - (recordsBytes b).length)

/-- **A cut keeps whole batches exactly when it splits none.** -/
theorem take_eq_flatten_iff (bs : List (List WALEntry)) (n : Nat) :
    (∃ j, bs.flatten.take (wholeRecords bs.flatten n) = (bs.take j).flatten) ↔ Splits bs n = false := by
  induction bs generalizing n with
  | nil => simp [Splits]
  | cons b bs ih =>
    rw [List.flatten_cons, Splits]
    by_cases hn : n < (recordsBytes b).length
    · obtain ⟨hw, hlt⟩ := wholeRecords_append_of_lt hn bs.flatten
      rw [if_pos hn, hw, List.take_append_of_le_length (by omega)]
      constructor
      · rintro ⟨j, hj⟩
        -- too many entries for no batch, too few for this one
        cases j with
        | zero =>
          have hl := congrArg List.length hj
          simp at hl
          rcases hl with hl | hl
          · simp [hl]
          · simp [hl] at hlt
        | succ j =>
          have hl := congrArg List.length hj
          simp only [List.length_take, List.take_succ_cons, List.flatten_cons, List.length_append] at hl
          omega
      · intro hz
        have hzero : wholeRecords b n = 0 := by simpa using hz
        exact ⟨0, by rw [hzero]; rfl⟩
    · rw [if_neg hn, ← ih, wholeRecords_append (by omega), List.take_length_add_append]
      constructor
      · rintro ⟨j, hj⟩
        cases j with
        | zero =>
          exact ⟨0, (List.append_eq_nil_iff.1 hj).2⟩
        | succ j => exact ⟨j, (List.append_right_inj b).1 hj⟩
      · rintro ⟨j, hj⟩
        exact ⟨j + 1, by rw [hj]; rfl⟩

/-! ## What recovery makes of a snapshot and a log -/

/-- The snapshot file holds `db`. -/
def Loads (J : JsonLib) (snap : Option Bytes) (db : Db) : Prop :=
  ∃ e, loadSnapshotIfPresent J {} snap = some e ∧ view e.tables = db

/-- A location after a log was replayed on `db`. -/
def cellAfter (J : JsonLib) (db : Db) (es : List WALEntry) (l : Loc) : Cell :=
  GuardedReplay.replay (db.cell l) (logOps J es l)

section Recover
variable {J : JsonLib} {clock : Nat → UInt64} {snap : Option Bytes} {file : Bytes} {db du : Db}

/-- Recovery replays the log on what the snapshot holds. -/
theorem cell_recover_replay (clock : Nat → UInt64) (file : Bytes) (hload : Loads J snap db) :
    ∃ e, recover J clock snap file = some e ∧ ∀ l, (view e.tables).cell l = cellAfter J db (readAll file) l := by
  obtain ⟨e, hl, rfl⟩ := hload
  refine ⟨replay J clock 0 e (readAll file), ?_, fun l => cell_replay J clock 0 e _ l⟩
  rw [recover, hl]
  rfl

theorem view_recover_replay (clock : Nat → UInt64) (hload : Loads J snap db) {db' : Db} (hlog : Logged J db (readAll file) db') :
    ∃ e, recover J clock snap file = some e ∧ view e.tables = db' := by
  obtain ⟨e, he, hcell⟩ := cell_recover_replay clock file hload
  exact ⟨e, he, DbOf.ext_cell fun l => (hcell l).trans (hlog l).symm⟩

/-- **Where recovery arrives.** The snapshot was taken after the entries `U`, and the log holds the
entries that follow `B`, which are part of what the snapshot holds. -/
theorem cell_recover (clock : Nat → UInt64) {L B U : List WALEntry} (hload : Loads J snap du)
    (hdu : Logged J db U du) (hfires : Fires J db L) (hU : U <+: L) (hBF : B ++ readAll file <+: L) (hB : B <+: U) :
    ∃ e, recover J clock snap file = some e ∧
      (∀ l, (view e.tables).cell l = cellAfter J db U l ∨
        (view e.tables).cell l = cellAfter J db (B ++ readAll file) l) ∧
      (U <+: B ++ readAll file → ∀ l, (view e.tables).cell l = cellAfter J db (B ++ readAll file) l) := by
  obtain ⟨e, he, hcell⟩ := cell_recover_replay clock file hload
  have hover : U <+: B ++ readAll file → ∀ l, (view e.tables).cell l = cellAfter J db (B ++ readAll file) l := by
    rintro ⟨G, hG⟩ l
    obtain ⟨M, rfl⟩ := hB
    have hF : readAll file = M ++ G := by
      rw [List.append_assoc] at hG
      exact (List.append_cancel_left hG).symm
    obtain ⟨x, hx⟩ := hU
    have hlive := hfires l
    rw [← hx, logOps_append, live_append, logOps_append, live_append] at hlive
    -- the part of the log the snapshot already holds changes nothing
    have hfinal := replay_over_final hlive.1.2
    rw [hcell l, cellAfter, hdu l, hF, logOps_append, logOps_append, replay_append, replay_append, hfinal, cellAfter,
      logOps_append, logOps_append, replay_append, replay_append]
  refine ⟨e, he, fun l => ?_, hover⟩
  rcases List.prefix_or_prefix_of_prefix hU hBF with hle | hle
  · exact Or.inr (hover hle l)
  · obtain ⟨G, hG⟩ := hle
    obtain ⟨x, hx⟩ := hU
    have hlive := hfires l
    rw [← hx, logOps_append, live_append, ← hG, List.append_assoc, logOps_append, live_append, logOps_append] at hlive
    rw [hcell l, cellAfter, hdu l, cellAfter, cellAfter, ← hG, List.append_assoc, logOps_append, logOps_append,
      logOps_append, replay_append, replay_append (db.cell l) (logOps J B l) (logOps J (readAll file) l)]
    exact replay_prefix_over_final hlive.1.2

end Recover

end OriginDB
