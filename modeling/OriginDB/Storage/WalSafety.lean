import OriginDB.Storage.WalProtocol
/-!
# Acknowledged batches and what `ReadAll` gives back

The two results about the log on its own: in a `Permitted` run every acknowledged batch is in the
file, whole and before anything that failed (`acked_readable`), and appends survive what was in the
log before exactly when `Initialize` found it well framed (`survives_iff`).
-/
namespace OriginDB.Wal

open ByteCodec Machine

/-! ## Permitted runs -/

/-- The batch gets numbers other than zero and records shorter than `2 ^ 32`. -/
structure Accepts (w : Wal) (entries : List WALEntry) : Prop where
  numbered : entries = [] ∨ 0 < w.nextSequence ∧ w.nextSequence.toNat + entries.length ≤ 2 ^ 64
  fits : ∀ e ∈ entries, (recordBytes e).length < 2 ^ 32

instance (w : Wal) (entries : List WALEntry) : Decidable (w.Accepts entries) :=
  decidable_of_iff ((entries = [] ∨ 0 < w.nextSequence ∧ w.nextSequence.toNat + entries.length ≤ 2 ^ 64) ∧
    ∀ e ∈ entries, (recordBytes e).length < 2 ^ 32) ⟨fun h => ⟨h.1, h.2⟩, fun h => ⟨h.1, h.2⟩⟩

/-- The writer takes no further drain once `fatal_` is set, and what is enqueued can be read back. -/
def Permitted (w : Wal) : Label → Prop
  | .append entries _ => w.fatal = false → w.Accepts entries
  | .swap => w.fatal = false
  | _ => True

instance (w : Wal) (l : Label) : Decidable (w.Permitted l) :=
  match l with
  | .append entries _ => inferInstanceAs (Decidable (w.fatal = false → w.Accepts entries))
  | .swap => inferInstanceAs (Decidable (w.fatal = false))
  | .drain | .write _ | .writeError | .sync _ | .fulfil | .endDrain | .stopWriter | .exit => isTrue trivial

theorem recorded_assign {next ts : UInt64} {es : List WALEntry}
    (hn : es = [] ∨ 0 < next ∧ next.toNat + es.length ≤ 2 ^ 64)
    (hfit : ∀ e ∈ es, (recordBytes e).length < 2 ^ 32) : ∀ e ∈ assign next ts es, e.Recorded := by
  induction es generalizing next with
  | nil => simp [assign]
  | cons e es ih =>
    obtain ⟨hpos, hle⟩ : 0 < next ∧ next.toNat + (es.length + 1) ≤ 2 ^ 64 := by simpa using hn
    intro e' he'
    rcases List.mem_cons.1 he' with rfl | he'
    · refine ⟨?_, hpos⟩
      have := hfit e (by simp)
      rw [length_recordBytes] at this ⊢
      exact this
    · refine ih ?_ (fun x hx => hfit x (by simp [hx])) e' he'
      by_cases hnil : es = []
      · exact Or.inl hnil
      · have hlen : 0 < es.length := List.length_pos_iff.2 hnil
        have hsucc : (next + 1).toNat = next.toNat + 1 := by
          rw [UInt64.toNat_add]
          exact Nat.mod_eq_of_lt (by simp; omega)
        refine Or.inr ⟨?_, by rw [hsucc]; omega⟩
        rw [UInt64.lt_iff_toNat_lt, hsucc]
        exact Nat.succ_pos _

/-- Every record enqueued so far can be read back. -/
def Recorded (w : Wal) : Prop := ∀ b ∈ w.batches, ∀ e ∈ b, e.Recorded

theorem Recorded.more {w : Wal} (h : w.Recorded) {b : List WALEntry} (hb : ∀ e ∈ b, e.Recorded) :
    ∀ b' ∈ w.batches ++ [b], ∀ e ∈ b', e.Recorded := by
  intro b' hb' e he
  rcases List.mem_append.1 hb' with hm | hm
  · exact h b' hm e he
  · rw [List.mem_singleton.1 hm] at he
    exact hb e he

/-! ## One step -/

section Step
variable {w w' : Wal} {k : Nat} {mode : SyncMode} {l : Label}

/-- The steps that fail a drain. -/
def Label.fails : Label → Bool
  | .writeError | .sync false => true
  | _ => false

/-- **A step from a sound state** stays sound, or fails the drain and leaves the file as it is. -/
theorem Sound.step {q : Nat} (h : Sound w k q) (hstep : step mode w l = some w') :
    (∃ k' q', k ≤ k' ∧ q ≤ q' ∧ Sound w' k' q') ∨ (l.fails = true ∧ Failed w' k ∧ w'.file = w.file) := by
  cases l with
  | append entries ts =>
    cases hstep
    refine Or.inl ⟨k, q, Nat.le_refl k, Nat.le_refl q, ?_⟩
    unfold appendBatchAsync
    rw [if_neg (by simp [h.fatal])]
    exact (h.enqueue _).congr rfl
  | drain =>
    cases hstep
    refine Or.inl ⟨k, q, Nat.le_refl k, Nat.le_refl q, ?_⟩
    unfold Wal.drain
    split
    · exact h
    · exact h.enqueue []
  | swap =>
    simp only [Wal.step] at hstep
    split at hstep
    · rename_i hw
      cases hstep
      exact Or.inl ⟨k, _, Nat.le_refl k, h.taken_le, h.swap hw.1 hw.2⟩
    · cases hstep
  | write n =>
    simp only [Wal.step] at hstep
    split at hstep
    · rename_i drained rest hw
      split at hstep
      · cases hstep
        exact Or.inl ⟨k, q, Nat.le_refl k, Nat.le_refl q, h.write hw n _⟩
      · cases hstep
    · cases hstep
  | writeError =>
    simp only [Wal.step] at hstep
    split at hstep
    · rename_i drained rest hw
      split at hstep
      · cases hstep
        exact Or.inr ⟨rfl, h.fail hw, rfl⟩
      · cases hstep
    · cases hstep
  | sync ok =>
    simp only [Wal.step] at hstep
    split at hstep
    · rename_i drained hw
      split at hstep
      · split at hstep
        · cases hstep
          cases ok with
          | true => exact Or.inl ⟨k, q, Nat.le_refl k, Nat.le_refl q, h.synced hw _⟩
          | false => exact Or.inr ⟨rfl, (h.fail hw).congr rfl, rfl⟩
        · split at hstep
          · cases hstep
            exact Or.inl ⟨k, q, Nat.le_refl k, Nat.le_refl q, h.synced hw _⟩
          · cases hstep
      · cases hstep
    · cases hstep
  | fulfil =>
    simp only [Wal.step] at hstep
    split at hstep
    · rename_i p todo ok hw
      cases hstep
      cases ok with
      | true => exact Or.inl ⟨k + 1, q, Nat.le_succ k, Nat.le_refl q, h.fulfil hw⟩
      | false => exact absurd hw (h.good _)
    · cases hstep
  | endDrain =>
    simp only [Wal.step] at hstep
    split at hstep
    · rename_i ok hw
      cases hstep
      exact Or.inl ⟨k, q, Nat.le_refl k, Nat.le_refl q, h.endDrain hw⟩
    · cases hstep
  | stopWriter => cases hstep; exact Or.inl ⟨k, q, Nat.le_refl k, Nat.le_refl q, h.congr rfl⟩
  | exit =>
    simp only [Wal.step] at hstep
    split at hstep
    · rename_i hw
      cases hstep
      exact Or.inl ⟨k, q, Nat.le_refl k, Nat.le_refl q, h.exit hw.1⟩
    · cases hstep

/-- **After a failure** nothing is written and nothing acknowledged any more. -/
theorem Failed.step (h : Failed w k) (hp : w.Permitted l) (hstep : step mode w l = some w') :
    Failed w' k ∧ w'.file = w.file ∧ w'.images = w.images := by
  cases l with
  | append entries ts =>
    cases hstep
    unfold appendBatchAsync
    split
    · exact ⟨h.more (by simp) _ _, rfl, rfl⟩
    · exact ⟨h.more (by simp) _ _, rfl, rfl⟩
  | drain =>
    cases hstep
    unfold Wal.drain
    split
    · exact ⟨h, rfl, rfl⟩
    · exact ⟨h.more (by simp) _ _, rfl, rfl⟩
  | swap =>
    simp only [Wal.step] at hstep
    split at hstep
    · rename_i hw
      -- a failed writer waits only with `fatal_` set
      cases h.ended with
      | fulfilling todo ht _ => rw [hw.1] at ht; cases ht
      | fatal _ hfatal => rw [show w.fatal = false from hp] at hfatal; cases hfatal
    · cases hstep
  | write n | writeError =>
    simp only [Wal.step] at hstep
    split at hstep
    · rename_i drained rest hw
      exact absurd hw (h.not_writing _ _)
    · cases hstep
  | sync ok =>
    simp only [Wal.step] at hstep
    split at hstep
    · rename_i drained hw
      exact absurd hw (h.not_writing _ _)
    · cases hstep
  | fulfil =>
    simp only [Wal.step] at hstep
    split at hstep
    · rename_i p todo ok hw
      cases hstep
      exact ⟨h.fulfil hw, rfl, rfl⟩
    · cases hstep
  | endDrain =>
    simp only [Wal.step] at hstep
    split at hstep
    · rename_i ok hw
      cases hstep
      exact ⟨h.endDrain hw, rfl, rfl⟩
    · cases hstep
  | stopWriter => cases hstep; exact ⟨h.congr rfl, rfl, rfl⟩
  | exit =>
    simp only [Wal.step] at hstep
    split at hstep
    · rename_i hw
      cases hstep
      exact ⟨h.exit hw.1, rfl, rfl⟩
    · cases hstep

/-- **What one step does**: the acknowledged batches stay the first ones, and only grow in number. -/
theorem Inv.step (h : Inv w k) (hp : w.Permitted l) (hstep : step mode w l = some w') :
    ∃ k', k ≤ k' ∧ Inv w' k' := by
  rcases h with ⟨q, hs⟩ | hf
  · rcases hs.step hstep with ⟨k', q', hk, -, hs'⟩ | ⟨-, hf, -⟩
    · exact ⟨k', hk, Or.inl ⟨q', hs'⟩⟩
    · exact ⟨k, Nat.le_refl k, Or.inr hf⟩
  · exact ⟨k, Nat.le_refl k, Or.inr (hf.step hp hstep).1⟩

/-- What a step leaves alone, and how it extends the history. -/
theorem step_frame (hstep : step mode w l = some w') :
    w'.base = w.base ∧ w'.origin = w.origin ∧ (w'.batches = w.batches ∨ w'.batches = w.batches ++ [[]] ∨
      ∃ entries ts, l = .append entries ts ∧ w.fatal = false ∧
        w'.batches = w.batches ++ [assign w.nextSequence ts entries]) := by
  cases l with
  | append entries ts =>
    cases hstep
    unfold appendBatchAsync
    split
    · exact ⟨rfl, rfl, Or.inr (Or.inl rfl)⟩
    · rename_i hf
      exact ⟨rfl, rfl, Or.inr (Or.inr ⟨entries, ts, rfl, by simpa using hf, rfl⟩)⟩
  | drain =>
    cases hstep
    unfold Wal.drain
    split
    · exact ⟨rfl, rfl, Or.inl rfl⟩
    · exact ⟨rfl, rfl, Or.inr (Or.inl rfl)⟩
  | stopWriter => cases hstep; exact ⟨rfl, rfl, Or.inl rfl⟩
  | _ =>
    simp only [Wal.step] at hstep
    repeat' split at hstep
    all_goals first
      | (cases hstep; done)
      | (cases hstep; exact ⟨rfl, rfl, Or.inl rfl⟩)

theorem Recorded.step (h : w.Recorded) (hp : w.Permitted l) (hstep : step mode w l = some w') : w'.Recorded := by
  obtain ⟨-, -, hb | hb | ⟨entries, ts, rfl, hf, hb⟩⟩ := step_frame hstep
  · unfold Recorded
    rw [hb]
    exact h
  · unfold Recorded
    rw [hb]
    exact h.more (by simp)
  · unfold Recorded
    rw [hb]
    have ha : w.Accepts entries := hp hf
    exact h.more (recorded_assign ha.numbered ha.fits)

end Step

/-! ## Whole runs -/

/-- A log opened on a file that held `F` once the magic was in place, `k` batches acknowledged since. -/
structure Opened (F : Bytes) (w : Wal) (k : Nat) : Prop where
  inv : Inv w k
  recorded : w.Recorded
  base : w.base = 0
  origin : w.origin = F

theorem sound_walInitialize (file : Bytes) (n : Nat) : Sound (walInitialize file n) 0 0 := by
  refine ⟨Nat.le_refl _, Nat.le_refl _, Nat.le_refl _, rfl, rfl, rfl, ?_, ?_, rfl, ?_, ?_⟩
  · simp [walInitialize, span, unwritten]
  · simp [walInitialize, span]
  · intro todo h; cases h
  · intro drained rest h; cases h

theorem opened_walInitialize (file : Bytes) (n : Nat) :
    Opened (writeMagicIfEmpty file n) (walInitialize file n) 0 :=
  ⟨Or.inl ⟨0, sound_walInitialize file n⟩, (fun b hb => by cases hb), rfl, rfl⟩

theorem Opened.run {mode : SyncMode} {F : Bytes} {w w' : Wal} {k : Nat} {ls : List Label} (h : Opened F w k)
    (hp : Allowed (step mode) Permitted w ls) (hrun : run (step mode) w ls = some w') : ∃ k', Opened F w' k' := by
  refine run_invariant (fun w => ∃ k, Opened F w k) ?_ ⟨k, h⟩ hp hrun
  rintro s l s' ⟨k, hk⟩ hl hstep
  obtain ⟨k', -, hi⟩ := hk.inv.step hl hstep
  obtain ⟨hb, ho, -⟩ := step_frame hstep
  exact ⟨k', hi, hk.recorded.step hl hstep, hb.trans hk.base, ho.trans hk.origin⟩

/-! ## Acknowledged entries -/

/-- The entries of the batches whose promise is fulfilled with `true`, in the order they were appended. -/
def ackedEntries (w : Wal) : List WALEntry :=
  ((w.batches.zip w.promises).filter (·.2 = some true)).flatMap Prod.fst

theorem filter_acked {α : Type} (bs : List α) (ps : List (Option Bool)) (k : Nat) (hlen : ps.length = bs.length)
    (hk : ∀ i, i < bs.length → (ps[i]? = some (some true) ↔ i < k)) :
    ((bs.zip ps).filter (·.2 = some true)).map Prod.fst = bs.take k := by
  induction bs generalizing ps k with
  | nil => simp
  | cons b bs ih =>
    match ps, hlen with
    | p :: ps, hlen =>
      have h0 := hk 0 (by simp)
      simp only [List.getElem?_cons_zero, Option.some.injEq] at h0
      have htl : ∀ i, i < bs.length → (ps[i]? = some (some true) ↔ i < k - 1) := by
        intro i hi
        have := hk (i + 1) (by simpa using hi)
        simp only [List.getElem?_cons_succ] at this
        rw [this]
        omega
      have hrec := ih ps (k - 1) (by simpa using hlen) htl
      by_cases hp : p = some true
      · have hpos : 0 < k := h0.1 hp
        obtain ⟨j, rfl⟩ : ∃ j, k = j + 1 := ⟨k - 1, by omega⟩
        simp only [Nat.add_sub_cancel] at hrec
        simp [hp, hrec]
      · have hz : k = 0 := by
          by_contra hne
          exact hp (h0.2 (by omega))
        subst hz
        simpa [hp] using hrec

section Acked
variable {w : Wal} {k : Nat}

theorem Inv.length (h : Inv w k) : w.promises.length = w.batches.length := by
  rcases h with ⟨q, hs⟩ | hf
  · exact hs.length
  · exact hf.length

/-- The promises fulfilled with `true` are the first `k`. -/
theorem Inv.acked_iff (h : Inv w k) (i : Nat) : w.promises[i]? = some (some true) ↔ i < k := by
  rcases h with ⟨q, hs⟩ | hf
  · have := hs.acked_le
    rw [hs.promises]
    by_cases hi : i < k
    · rw [List.getElem?_append_left (by simpa using hi)]
      simp [hi]
    · rw [List.getElem?_append_right (by simp; omega)]
      simp [List.getElem?_replicate, hi]
  · constructor
    · intro hp
      by_contra hge
      exact hf.unacked i (by omega) hp
    · exact hf.acked i

/-- No promise before a fulfilled one has failed. -/
theorem Inv.not_failed (h : Inv w k) {i : Nat} (hi : i < k) : w.promises[i]? ≠ some (some false) := by
  rw [(h.acked_iff i).2 hi]
  simp

theorem Inv.ackedEntries_eq (h : Inv w k) : w.ackedEntries = (w.batches.take k).flatten := by
  rw [ackedEntries, List.flatMap_def, filter_acked _ _ k h.length fun i _ => h.acked_iff i]

theorem Inv.kept (h : Inv w k) : w.origin ++ w.span w.base k <+: w.file := by
  rcases h with ⟨q, hs⟩ | hf
  · exact hs.kept
  · exact hf.kept

theorem recorded_span (h : w.Recorded) (m n : Nat) : ∀ e ∈ ((w.batches.take n).drop m).flatten, e.Recorded := by
  intro e he
  obtain ⟨b, hb, he⟩ := List.mem_flatten.1 he
  exact h b (List.mem_of_mem_take (List.mem_of_mem_drop hb)) e he

/-- What is read back from a file that starts with the acknowledged records. -/
theorem readAll_of_kept {F file : Bytes} {es : List WALEntry} (hF : WellFramed F) (hes : ∀ e ∈ es, e.Recorded)
    (h : F ++ recordsBytes es <+: file) : readAll F ++ es <+: readAll file := by
  obtain ⟨x, rfl⟩ := h
  rw [List.append_assoc, readAll_append hF, readRecords_append hes, ← List.append_assoc]
  exact List.prefix_append _ _

theorem Opened.acked_prefix {F : Bytes} (h : Opened F w k) (hF : WellFramed F) :
    readAll F ++ (w.batches.take k).flatten <+: readAll w.file := by
  have hkept := h.inv.kept
  rw [h.origin, h.base] at hkept
  exact readAll_of_kept hF (by simpa using recorded_span h.recorded 0 k) (by simpa [span] using hkept)

/-- Every acknowledged batch is read back whole, and none was acknowledged after an earlier one failed. -/
def AckedReadable (w : Wal) : Prop :=
  (∀ (i : Nat) (es : List WALEntry), w.promises[i]? = some (some true) → w.batches[i]? = some es →
    es <:+: readAll w.file) ∧
  ∀ i j : Nat, i < j → w.promises[i]? = some (some false) → w.promises[j]? ≠ some (some true)

theorem infix_flatten_take {bs : List (List WALEntry)} {i : Nat} {es : List WALEntry} (hi : i < k)
    (h : bs[i]? = some es) : es <:+: (bs.take k).flatten := by
  have hmem : (bs.take k)[i]? = some es := by rw [List.getElem?_take_of_lt hi, h]
  obtain ⟨hlt, heq⟩ := List.getElem?_eq_some_iff.1 hmem
  have hsplit := List.take_append_drop i (bs.take k)
  rw [List.drop_eq_getElem_cons hlt, heq] at hsplit
  rw [← hsplit, List.flatten_append, List.flatten_cons]
  exact ⟨_, _, List.append_assoc _ _ _⟩

theorem Opened.ackedReadable {F : Bytes} (h : Opened F w k) (hF : WellFramed F) : w.AckedReadable := by
  refine ⟨?_, ?_⟩
  · intro i es hp hes
    have hi : i < k := (h.inv.acked_iff i).1 hp
    obtain ⟨a, b, hab⟩ := infix_flatten_take hi hes
    obtain ⟨x, hx⟩ := h.acked_prefix hF
    refine ⟨readAll F ++ a, b ++ x, ?_⟩
    rw [← hx, ← hab]
    simp only [List.append_assoc]
  · intro i j hij hfalse htrue
    have hj : j < k := (h.inv.acked_iff j).1 htrue
    exact h.inv.not_failed (by omega) hfalse

end Acked

/-- **Acknowledged batches are readable** in every state of every permitted run on a well-framed log,
whatever the outcome of each `write()` and sync. -/
theorem acked_readable (mode : SyncMode) (file : Bytes) (n : Nat) (ls : List Label) (w : Wal)
    (hF : WellFramed (writeMagicIfEmpty file n))
    (hp : Allowed (step mode) Permitted (walInitialize file n) ls)
    (hrun : run (step mode) (walInitialize file n) ls = some w) : w.AckedReadable := by
  obtain ⟨k, hk⟩ := (opened_walInitialize file n).run hp hrun
  exact hk.ackedReadable hF

/-- A batch acknowledged, a second one torn by a failed `write()`, a third refused. -/
def tornThenRefused : List Label :=
  [.append [bareEntry .insert 0 0] 7, .swap, .write 41, .sync true, .fulfil, .endDrain,
   .append [bareEntry .delete 0 0] 8, .swap, .write 5, .writeError, .fulfil, .endDrain,
   .append [bareEntry .update 0 0] 9]

theorem acked_readable_tornThenRefused :
    ∃ w, run (step .fsync) (walInitialize [] 8) tornThenRefused = some w ∧
      w.promises = [some true, some false, some false] ∧ w.AckedReadable :=
  ⟨_, rfl, rfl, acked_readable .fsync [] 8 tornThenRefused _ (by decide) (by decide) rfl⟩

/-- A batch queued while the drain before it fails: `fatal_` is looked at when it is enqueued, and set
only after the failed drain's promises, so it is written behind the torn record and acknowledged. -/
def queuedBehindTorn : List Label :=
  [.append [bareEntry .insert 0 0] 7, .swap, .append [bareEntry .delete 0 0] 8, .write 5, .writeError, .fulfil,
   .endDrain, .swap, .write 41, .sync true, .fulfil]

theorem acked_unreadable_queuedBehindTorn :
    ∃ w, run (step .fsync) (walInitialize [] 8) queuedBehindTorn = some w ∧
      w.promises = [some false, some true] ∧ w.batches[1]? = some [bareEntry .delete 2 8] ∧
      bareEntry .delete 2 8 ∉ readAll w.file ∧ ¬ w.AckedReadable := by
  refine ⟨_, rfl, by decide, by decide, by decide, fun h => ?_⟩
  exact h.2 0 1 (by decide) (by decide) (by decide)

/-! ## Appending to whatever was there -/

/-- Everything acknowledged after an `Initialize` is returned by the next one, in order and behind what
the first one read. -/
def Survives (mode : SyncMode) (file : Bytes) (n : Nat) : Prop :=
  ∀ (ls : List Label) (w : Wal) (n' : Nat), Allowed (step mode) Permitted (walInitialize file n) ls →
    run (step mode) (walInitialize file n) ls = some w →
    (readAll (writeMagicIfEmpty file n) ++ w.ackedEntries).Sublist (readAll (writeMagicIfEmpty w.file n'))

theorem readAll_writeMagicIfEmpty (file : Bytes) (n : Nat) : readAll (writeMagicIfEmpty file n) = readAll file := by
  unfold writeMagicIfEmpty
  split
  · rename_i he
    subst he
    by_cases hn : n < 8
    · exact readAll_short (by simp [kWalMagic]; omega)
    · rw [List.take_of_length_le (by simp [kWalMagic]; omega)]
      rfl
  · rfl

theorem Opened.survives {F : Bytes} {w : Wal} {k : Nat} (h : Opened F w k) (hF : WellFramed F) (n' : Nat) :
    (readAll F ++ w.ackedEntries).Sublist (readAll (writeMagicIfEmpty w.file n')) := by
  rw [readAll_writeMagicIfEmpty, h.inv.ackedEntries_eq]
  exact (h.acked_prefix hF).sublist

/-! ### A log that has run out of sequence numbers takes no entry -/

/-- No number is left, so only empty batches were accepted. -/
structure Exhausted (w : Wal) : Prop where
  next : w.nextSequence = 0
  empty : ∀ b ∈ w.batches, b = []

theorem Exhausted.step {mode : SyncMode} {w w' : Wal} {l : Label} (h : w.Exhausted) (hp : w.Permitted l)
    (hstep : step mode w l = some w') : w'.Exhausted := by
  have hnext : w'.nextSequence = 0 := by
    cases l with
    | append entries ts =>
      cases hstep
      unfold appendBatchAsync
      split
      · exact h.next
      · rename_i hf
        have ha : w.Accepts entries := hp (by simpa using hf)
        have hnil : entries = [] := by
          rcases ha.numbered with hn | ⟨hpos, -⟩
          · exact hn
          · rw [h.next] at hpos
            exact absurd hpos (by decide)
        simp [hnil, h.next]
    | drain => cases hstep; unfold Wal.drain; split <;> exact h.next
    | stopWriter => cases hstep; exact h.next
    | _ =>
      simp only [Wal.step] at hstep
      repeat' split at hstep
      all_goals first
        | (cases hstep; done)
        | (cases hstep; exact h.next)
  refine ⟨hnext, ?_⟩
  intro b hb
  obtain ⟨-, -, he | he | ⟨entries, ts, rfl, hf, he⟩⟩ := step_frame hstep
  · rw [he] at hb
    exact h.empty b hb
  · rw [he] at hb
    rcases List.mem_append.1 hb with hb | hb
    · exact h.empty b hb
    · exact List.mem_singleton.1 hb
  · rw [he] at hb
    rcases List.mem_append.1 hb with hb | hb
    · exact h.empty b hb
    · have ha : w.Accepts entries := hp hf
      rcases ha.numbered with hn | ⟨hpos, -⟩
      · rw [List.mem_singleton.1 hb, hn]
        rfl
      · rw [h.next] at hpos
        exact absurd hpos (by decide)

theorem Exhausted.flatten {w : Wal} (h : w.Exhausted) (m n : Nat) : ((w.batches.take n).drop m).flatten = [] := by
  rw [List.flatten_eq_nil_iff]
  intro b hb
  exact h.empty b (List.mem_of_mem_take (List.mem_of_mem_drop hb))

theorem Exhausted.file {w : Wal} {k : Nat} (h : w.Exhausted) (hi : Inv w k) : w.file = w.origin := by
  have hspan : ∀ m n, w.span m n = [] := fun m n => by rw [span, h.flatten]; rfl
  have hkept := hi.kept
  have hwithin : w.file <+: w.origin := by
    rcases hi with ⟨q, hs⟩ | hf
    · have hc := hs.content
      rw [hspan, List.append_nil] at hc
      exact ⟨_, hc⟩
    · have hw := hf.within
      rwa [hspan, List.append_nil] at hw
  rw [hspan, List.append_nil] at hkept
  exact hwithin.eq_of_length_le hkept.length_le

/-! ### One record behind a file that is not well framed -/

/-- One batch, acknowledged. -/
def ackOne (e : WALEntry) (ts : UInt64) : List Label :=
  [.append [e] ts, .swap, .write (serializeRecord e).length, .sync true, .fulfil]

theorem length_serializeRecord_assign (e : WALEntry) (seq ts : UInt64) :
    (serializeRecord { e with sequence := seq, timestamp := ts }).length = (serializeRecord e).length := by
  simp only [serializeRecord, length_lenPrefixed, length_recordBytes]

theorem run_ackOne (mode : SyncMode) (file : Bytes) (n : Nat) (e : WALEntry) (ts : UInt64) :
    ∃ w, run (step mode) (walInitialize file n) (ackOne e ts) = some w ∧
      w.file = writeMagicIfEmpty file n ++
        serializeRecord { e with sequence := recoverSequenceNumber (writeMagicIfEmpty file n), timestamp := ts } ∧
      w.ackedEntries =
        [{ e with sequence := recoverSequenceNumber (writeMagicIfEmpty file n), timestamp := ts }] := by
  have hlen := length_serializeRecord_assign e (recoverSequenceNumber (writeMagicIfEmpty file n)) ts
  have hpos : 0 < (serializeRecord e).length := by simp [serializeRecord]
  cases mode with
  | fsync | none | flush =>
    simp only [ackOne, run, step, appendBatchAsync, walInitialize, enqueue, assign, recordsBytes, Bool.false_eq_true,
      if_false, List.nil_append, List.length_nil, ne_eq, List.cons_ne_self, not_false_eq_true, and_self, if_true,
      List.flatMap_cons, List.flatMap_nil, List.append_nil, hlen, hpos, Nat.le_refl, reduceCtorEq]
    rw [← hlen, List.take_length, List.drop_length]
    exact ⟨_, rfl, rfl, rfl⟩

theorem allowed_ackOne (mode : SyncMode) (file : Bytes) (n : Nat) (type : WALEntryType) (ts : UInt64)
    (hseq : recoverSequenceNumber (writeMagicIfEmpty file n) ≠ 0) :
    Allowed (step mode) Permitted (walInitialize file n) (ackOne (bareEntry type 0 0) ts) := by
  have hacc : (walInitialize file n).Accepts [bareEntry type 0 0] := by
    refine ⟨Or.inr ⟨UInt64.pos_iff_ne_zero.2 hseq, ?_⟩, ?_⟩
    · have := (walInitialize file n).nextSequence.toNat_lt
      simp only [List.length_cons, List.length_nil]
      omega
    · intro e he
      rw [List.mem_singleton.1 he, length_recordBytes]
      simp [bareEntry]
  refine ⟨fun _ => hacc, ?_⟩
  show Allowed _ _ _ (_ :: _)
  refine ⟨rfl, ?_⟩
  cases step mode _ .swap with
  | none => trivial
  | some w =>
    refine Allowed.of_forall fun l hl w => ?_
    simp only [List.mem_cons, List.not_mem_nil, or_false] at hl
    rcases hl with rfl | rfl | rfl <;> trivial

/-- The type of a record that the torn tail of `F` swallows. -/
def lostType (F : Bytes) : WALEntryType := otherType (frames (F.drop 8)).2[4]?

theorem kWalMagic_ne_length (i : Nat) : kWalMagic[i]? ≠ some 37 := by
  by_cases h : i < 8
  · interval_cases i <;> decide
  · rw [List.getElem?_eq_none (by simp [kWalMagic]; omega)]
    simp

theorem lost_behind {F : Bytes} (hF : ¬ WellFramed F) (seq ts : UInt64) :
    ¬ (readAll F ++ [bareEntry (lostType F) seq ts]).Sublist
      (readAll (F ++ serializeRecord (bareEntry (lostType F) seq ts))) := by
  obtain ⟨tl, hx, -⟩ := serializeRecord_bareEntry (lostType F) seq ts
  by_cases hmagic : F.take 8 = kWalMagic
  · -- the magic is whole, so it is the last record that is torn
    have htail : (frames (F.drop 8)).2 ≠ [] := fun he => hF ⟨hmagic, he⟩
    have hlen : 8 ≤ F.length := by
      have hl := congrArg List.length hmagic
      rw [List.length_take] at hl
      simp only [kWalMagic, List.length_cons, List.length_nil] at hl
      omega
    have hread : readAll (F ++ serializeRecord (bareEntry (lostType F) seq ts)) = readAll F ++
        readRecords ((frames (F.drop 8)).2 ++ serializeRecord (bareEntry (lostType F) seq ts)) := by
      rw [readAll, readAll, List.take_append_of_le_length hlen, List.drop_append_of_le_length hlen, if_pos hmagic,
        if_pos hmagic, readRecords, frames_append, List.filterMap_append]
      rfl
    rw [hread, List.append_sublist_append_left, List.singleton_sublist]
    exact torn_swallows htail (frames_spec _).2.2 seq ts
  · -- without the magic nothing is read, and the record does not complete it
    have hbad : (F ++ serializeRecord (bareEntry (lostType F) seq ts)).take 8 ≠ kWalMagic := by
      by_cases hlen : 8 ≤ F.length
      · rwa [List.take_append_of_le_length hlen]
      · intro he
        have hi := congrArg (fun l => l[F.length]?) he
        simp only [List.getElem?_take_of_lt (Nat.not_le.1 hlen)] at hi
        rw [List.getElem?_append_right (Nat.le_refl _), Nat.sub_self, hx] at hi
        exact kWalMagic_ne_length _ hi.symm
    rw [readAll, readAll, if_neg hmagic, if_neg hbad]
    simp

/-- **Appends survive what was in the log exactly when it was well framed.** `Initialize` cuts no tail,
so behind a torn one (or a torn magic) records are written that no later `ReadAll` finds. The one other
case is a log whose numbers are used up, which takes no entry at all. -/
theorem survives_iff (mode : SyncMode) (file : Bytes) (n : Nat) :
    Survives mode file n ↔
      WellFramed (writeMagicIfEmpty file n) ∨ recoverSequenceNumber (writeMagicIfEmpty file n) = 0 := by
  constructor
  · intro h
    by_contra hno
    obtain ⟨hF, hseq⟩ := not_or.1 hno
    obtain ⟨w, hrun, hfile, hack⟩ := run_ackOne mode file n (bareEntry (lostType (writeMagicIfEmpty file n)) 0 0) 0
    have hs := h _ w 0 (allowed_ackOne mode file n _ 0 hseq) hrun
    rw [hack, readAll_writeMagicIfEmpty w.file, hfile] at hs
    exact lost_behind hF _ _ hs
  · rintro (hF | hseq) ls w n' hp hrun
    · obtain ⟨k, hk⟩ := (opened_walInitialize file n).run hp hrun
      exact hk.survives hF n'
    · obtain ⟨k, hk⟩ := (opened_walInitialize file n).run hp hrun
      have hex : w.Exhausted := by
        refine run_invariant Exhausted (fun s l s' hs hl hst => hs.step hl hst) ?_ hp hrun
        exact ⟨hseq, fun b hb => by cases hb⟩
      have hack := hex.flatten 0 k
      rw [hk.inv.ackedEntries_eq, readAll_writeMagicIfEmpty w.file, hex.file hk.inv, hk.origin]
      rw [List.drop_zero] at hack
      simp [hack]

/-- A log torn in its first record, five bytes in. -/
def tornLog : Bytes := kWalMagic ++ (serializeRecord (bareEntry .insert 1 0)).take 5

/-- What is appended behind the torn record is acknowledged and never read again. -/
theorem append_lost_behind_tornLog :
    (∃ w, run (step .fsync) (walInitialize tornLog 8) (ackOne (bareEntry .delete 0 0) 7) = some w ∧
      w.promises = [some true] ∧ w.ackedEntries = [bareEntry .delete 1 7] ∧
      bareEntry .delete 1 7 ∉ readAll w.file) ∧ ¬ Survives .fsync tornLog 8 := by
  refine ⟨⟨_, rfl, rfl, by decide, by decide⟩, fun h => ?_⟩
  have hs := h (ackOne (bareEntry .delete 0 0) 7) _ 8 (by decide) rfl
  have hmem : bareEntry .delete 1 7 ∈ _ := hs.subset (List.mem_append_right _ (by decide))
  revert hmem
  decide

end OriginDB.Wal
