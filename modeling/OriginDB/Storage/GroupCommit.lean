import OriginDB.Storage.WalSafety
/-!
# Group commit keeps the order (`wal_impl.cpp:105-134`, `:233-293`)

On a log that holds only its magic, as long as writes and syncs succeed: the file has the records of the batches in
the order they took `queue_mutex_`, numbered from 1 on, and a promise is kept only behind a sync that comes after the
bytes of its batch.
-/
namespace OriginDB.Wal

open ByteCodec Machine

/-- Writes and syncs succeed. No `write()` takes the file beyond the largest `off_t`. -/
def Succeeds (w : Wal) : Label → Prop
  | .writeError | .sync false => False
  | .write n => w.file.length + n < 2 ^ 63
  | _ => True

instance (w : Wal) (l : Label) : Decidable (w.Succeeds l) := by
  unfold Succeeds
  split <;> infer_instance

/-- The batches of the calls of `AppendBatchAsync`, and the empty ones of `Drain`, in the order they took
`queue_mutex_`, numbered from `next` on. -/
def queued (next : UInt64) (stop : Bool) : List Label → List (List WALEntry)
  | [] => []
  | .append entries ts :: ls => assign next ts entries :: queued (next + UInt64.ofNat entries.length) stop ls
  | .drain :: ls => if stop then queued next stop ls else [] :: queued next stop ls
  | .stopWriter :: ls => queued next true ls
  | _ :: ls => queued next stop ls

/-! ## The numbers -/

theorem sequence_assign {next ts : UInt64} {es : List WALEntry} {i : Nat} {e : WALEntry}
    (h : (assign next ts es)[i]? = some e) : e.sequence = next + UInt64.ofNat i := by
  induction es generalizing next i with
  | nil => simp [assign] at h
  | cons x es ih =>
    cases i with
    | zero =>
      simp only [assign, List.getElem?_cons_zero, Option.some.injEq] at h
      simp [← h]
    | succ i =>
      simp only [assign, List.getElem?_cons_succ] at h
      rw [ih h, Nat.add_comm i 1, UInt64.ofNat_add, ← UInt64.add_assoc]
      rfl

@[simp] theorem length_assign (next ts : UInt64) (es : List WALEntry) : (assign next ts es).length = es.length := by
  induction es generalizing next with
  | nil => rfl
  | cons x es ih => simp [assign, ih]

/-- The `i`-th record has the `i`-th number. -/
theorem sequence_queued {next : UInt64} {stop : Bool} {ls : List Label} {i : Nat} {e : WALEntry}
    (h : (queued next stop ls).flatten[i]? = some e) : e.sequence = next + UInt64.ofNat i := by
  induction ls generalizing next stop i with
  | nil => simp [queued] at h
  | cons l ls ih =>
    cases l with
    | append entries ts =>
      simp only [queued, List.flatten_cons] at h
      by_cases hi : i < entries.length
      · rw [List.getElem?_append_left (by simpa using hi)] at h
        exact sequence_assign h
      · rw [List.getElem?_append_right (by simpa using hi), length_assign] at h
        rw [ih h, UInt64.add_assoc, ← UInt64.ofNat_add]
        congr 2
        omega
    | drain =>
      simp only [queued] at h
      split at h
      · exact ih h
      · rw [List.flatten_cons, List.nil_append] at h
        exact ih h
    | _ => exact ih h

/-! ## Runs -/

section
variable {mode : SyncMode} {w w' : Wal} {l : Label} {ls : List Label} {k q : Nat}

theorem Succeeds.not_fails (h : w.Succeeds l) : l.fails = false := by
  unfold Label.fails
  split
  · exact h.elim
  · exact h.elim
  · rfl

theorem Sound.succeeds (h : Sound w k q) (hok : w.Succeeds l) (hstep : Wal.step mode w l = some w') :
    ∃ k' q', Sound w' k' q' := by
  rcases h.step hstep with ⟨k', q', -, -, h'⟩ | ⟨hfails, -⟩
  · exact ⟨k', q', h'⟩
  · rw [hok.not_fails] at hfails
    cases hfails

/-- Only `AppendBatchAsync` and `Drain` add a batch. -/
theorem queued_step (hf : w.fatal = false) (hstep : step mode w l = some w') (ls : List Label) :
    w'.batches ++ queued w'.nextSequence w'.stop ls = w.batches ++ queued w.nextSequence w.stop (l :: ls) := by
  cases l with
  | append entries ts =>
    cases hstep
    simp [appendBatchAsync, hf, enqueue, queued]
  | drain =>
    cases hstep
    unfold Wal.drain
    by_cases hstop : w.stop = true
    · simp [hstop, queued]
    · simp [hstop, hf, enqueue, queued]
  | stopWriter =>
    cases hstep
    simp [queued]
  | _ =>
    simp only [step] at hstep
    repeat' split at hstep
    all_goals first
      | (cases hstep; done)
      | (cases hstep; simp [queued])

theorem batches_run (h : Sound w k q) (hok : Allowed (step mode) Succeeds w ls) (hrun : run (step mode) w ls = some w') :
    w'.batches = w.batches ++ queued w.nextSequence w.stop ls := by
  induction ls generalizing w k q with
  | nil =>
    cases hrun
    simp [queued]
  | cons l ls ih =>
    simp only [run] at hrun
    simp only [Allowed] at hok
    cases hs : step mode w l with
    | none => simp [hs] at hrun
    | some u =>
      simp only [hs] at hrun hok
      obtain ⟨k', q', hu⟩ := h.succeeds hok.1 hs
      rw [ih hu hok.2 hrun, queued_step h.fatal hs]

theorem length_step (h : w.file.length < 2 ^ 63) (hok : w.Succeeds l) (hstep : step mode w l = some w') :
    w'.file.length < 2 ^ 63 := by
  cases l with
  | append entries ts =>
    cases hstep
    unfold appendBatchAsync
    split <;> exact h
  | drain =>
    cases hstep
    unfold Wal.drain
    split <;> exact h
  | stopWriter =>
    cases hstep
    exact h
  | write n =>
    have hn : w.file.length + n < 2 ^ 63 := hok
    simp only [step] at hstep
    repeat' split at hstep
    all_goals first
      | (cases hstep; done)
      | (cases hstep; simp; omega)
  | _ =>
    simp only [step] at hstep
    repeat' split at hstep
    all_goals first
      | (cases hstep; done)
      | (cases hstep; exact h)

/-! ## Promises and syncs -/

/-- A sync was issued when the bytes were in the file. In the modes without one the step is the plain `return true`. -/
def SyncedBefore (mode : SyncMode) (start : Wal) (bytes : Bytes) (ls : List Label) : Prop :=
  ∃ before after u, ls = before ++ .sync true :: after ∧ run (step mode) start before = some u ∧ bytes <+: u.file

theorem SyncedBefore.more {start : Wal} {bytes : Bytes} (h : SyncedBefore mode start bytes ls) (l : Label) :
    SyncedBefore mode start bytes (ls ++ [l]) := by
  obtain ⟨before, after, u, rfl, hu, hb⟩ := h
  exact ⟨before, after ++ [l], u, by simp, hu, hb⟩

theorem SyncedBefore.part {start : Wal} {bytes part : Bytes} (h : SyncedBefore mode start bytes ls) (hpart : part <+: bytes) :
    SyncedBefore mode start part ls := by
  obtain ⟨before, after, u, hls, hu, hb⟩ := h
  exact ⟨before, after, u, hls, hu, hpart.trans hb⟩

/-- Promises are kept behind a sync that succeeded, with the file as it was then. -/
theorem fulfilling_step {todo : List PendingBatch} (hstep : step mode w l = some w') (hw : w'.writer = .fulfilling todo true) :
    w'.file = w.file ∧ (l = .sync true ∨ ∃ todo, w.writer = .fulfilling todo true) := by
  cases l with
  | append entries ts =>
    cases hstep
    unfold appendBatchAsync at hw ⊢
    split at hw
    · rename_i hf
      rw [if_pos hf]
      exact ⟨rfl, Or.inr ⟨todo, hw⟩⟩
    · rename_i hf
      rw [if_neg hf]
      exact ⟨rfl, Or.inr ⟨todo, hw⟩⟩
  | drain =>
    cases hstep
    unfold Wal.drain at hw ⊢
    split at hw
    · rename_i hs
      rw [if_pos hs]
      exact ⟨rfl, Or.inr ⟨todo, hw⟩⟩
    · rename_i hs
      rw [if_neg hs]
      exact ⟨rfl, Or.inr ⟨todo, hw⟩⟩
  | stopWriter =>
    cases hstep
    exact ⟨rfl, Or.inr ⟨todo, hw⟩⟩
  | _ =>
    simp only [step] at hstep
    repeat' split at hstep
    all_goals first
      | (cases hstep; done)
      | (cases hstep; simp_all)

theorem acked_step (hstep : step mode w l = some w') {i : Nat} (hi : w'.promises[i]? = some (some true)) :
    w.promises[i]? = some (some true) ∨ ∃ p todo, w.writer = .fulfilling (p :: todo) true ∧ p.done = i := by
  have hmore : ∀ {r : Option Bool}, r ≠ some true → (w.promises ++ [r])[i]? = some (some true) →
      w.promises[i]? = some (some true) := by
    intro r hr h
    rw [List.getElem?_append] at h
    split at h
    · exact h
    · rw [List.getElem?_singleton] at h
      split at h
      · exact absurd (Option.some.inj h) hr
      · cases h
  cases l with
  | append entries ts =>
    cases hstep
    unfold appendBatchAsync at hi
    split at hi
    · exact Or.inl (hmore (by simp) hi)
    · exact Or.inl (hmore (by simp) hi)
  | drain =>
    cases hstep
    unfold Wal.drain at hi
    split at hi
    · exact Or.inl hi
    · exact Or.inl (hmore (by simp) hi)
  | fulfil =>
    simp only [step] at hstep
    split at hstep
    · rename_i p todo ok hw
      cases hstep
      by_cases hp : p.done = i
      · subst hp
        rw [List.getElem?_set_self'] at hi
        obtain ⟨r, -, hr⟩ := Option.map_eq_some_iff.1 hi
        obtain rfl : ok = true := Option.some.inj hr
        exact Or.inr ⟨p, todo, hw, rfl⟩
      · rw [List.getElem?_set_ne hp] at hi
        exact Or.inl hi
    · cases hstep
  | stopWriter =>
    cases hstep
    exact Or.inl hi
  | _ =>
    simp only [step] at hstep
    repeat' split at hstep
    all_goals first
      | (cases hstep; done)
      | (cases hstep; exact Or.inl hi)

theorem span_of_append {bs : List (List WALEntry)} (hb : w'.batches = w.batches ++ bs) {m n : Nat} (hn : n ≤ w.batches.length) :
    w'.span m n = w.span m n := by
  rw [span, span, hb, List.take_append_of_le_length hn]

/-- What the syncs of a run have behind them. -/
structure Synced (mode : SyncMode) (start : Wal) (ls : List Label) (w : Wal) : Prop where
  sound : ∃ k q, Sound w k q
  fulfilling : ∀ todo, w.writer = .fulfilling todo true → SyncedBefore mode start w.file ls
  acked : ∀ i, w.promises[i]? = some (some true) → SyncedBefore mode start (w.origin ++ w.span w.base (i + 1)) ls

theorem Synced.step {start : Wal} (h : Synced mode start ls w) (hrun : run (Wal.step mode) start ls = some w)
    (hok : w.Succeeds l) (hstep : Wal.step mode w l = some w') : Synced mode start (ls ++ [l]) w' := by
  obtain ⟨k, q, hs⟩ := h.sound
  refine ⟨hs.succeeds hok hstep, ?_, ?_⟩
  · intro todo hw
    obtain ⟨hfile, rfl | ⟨todo', hw'⟩⟩ := fulfilling_step hstep hw
    · exact ⟨ls, [], w, rfl, hrun, hfile ▸ List.prefix_rfl⟩
    · rw [hfile]
      exact (h.fulfilling todo' hw').more l
  · intro i hi
    obtain ⟨hbase, horigin, hbatches⟩ := step_frame hstep
    have hkeeps : ∀ {n : Nat}, n ≤ w.batches.length → w'.span w'.base n = w.span w.base n := by
      intro n hn
      rw [hbase]
      rcases hbatches with hb | hb | ⟨_, _, -, -, hb⟩
      · exact span_of_append (hb.trans (List.append_nil _).symm) hn
      · exact span_of_append hb hn
      · exact span_of_append hb hn
    have hq := hs.taken_le
    rw [horigin]
    rcases acked_step hstep hi with hi | ⟨p, todo, hw, rfl⟩
    · have hlt : i < k := (hs.inv.acked_iff i).1 hi
      have := hs.acked_le
      rw [hkeeps (by omega)]
      exact (h.acked i hi).more l
    · -- the batch is one of those that were written
      obtain ⟨hlt, hp, -⟩ := hs.todo hw
      have hc := hs.content
      simp only [unwritten, hw, List.append_nil] at hc
      rw [hkeeps (by omega)]
      refine ((h.fulfilling _ hw).part ?_).more l
      rw [hc]
      exact (List.prefix_append_right_inj _).2 (span_mono (by omega))

end

/-! ## The order -/

theorem length_recordsBytes_le (es : List WALEntry) : es.length ≤ (recordsBytes es).length := by
  induction es with
  | nil => simp
  | cons e es ih =>
    have hpos : 0 < (serializeRecord e).length := by simp [serializeRecord]
    simp only [recordsBytes, List.flatMap_cons, List.length_cons, List.length_append] at ih ⊢
    omega

/-- **Group commit keeps the order.** The file is the magic and as many bytes as are written of the records of all
batches, in the order the batches were queued; the record that starts behind `i` others has number `i + 1`; and the
promise of a batch is kept only when the file has all of it, behind the batches before it, and a sync came after that. -/
theorem group_commit_in_order (mode : SyncMode) (ls : List Label) (w : Wal)
    (hok : Allowed (step mode) Succeeds (walInitialize kWalMagic 8) ls)
    (hrun : run (step mode) (walInitialize kWalMagic 8) ls = some w) :
    (∃ written, w.file = kWalMagic ++ written ∧ written <+: recordsBytes (queued 1 false ls).flatten) ∧
    (∀ (i : Nat) (e : WALEntry), (queued 1 false ls).flatten[i]? = some e →
      (kWalMagic ++ recordsBytes ((queued 1 false ls).flatten.take i)).length < w.file.length → e.sequence.toNat = i + 1) ∧
    ∀ (i : Nat) (es : List WALEntry), (queued 1 false ls)[i]? = some es → w.promises[i]? = some (some true) →
      kWalMagic ++ recordsBytes ((queued 1 false ls).take i).flatten ++ recordsBytes es <+: w.file ∧
      SyncedBefore mode (walInitialize kWalMagic 8)
        (kWalMagic ++ recordsBytes ((queued 1 false ls).take i).flatten ++ recordsBytes es) ls := by
  have hboot := sound_walInitialize kWalMagic 8
  obtain ⟨⟨k, q, hs⟩, -, hacked⟩ : Synced mode (walInitialize kWalMagic 8) ls w := by
    refine history_invariant (Synced mode (walInitialize kWalMagic 8)) ⟨⟨0, 0, hboot⟩, ?_, ?_⟩ ?_ hok hrun
    · intro todo h
      cases h
    · intro i h
      simp [walInitialize] at h
    · intro ls u l u' hu h hl hstep
      exact h.step hu hl hstep
  have hlength : w.file.length < 2 ^ 63 :=
    run_invariant (fun w => w.file.length < 2 ^ 63) (fun _ _ _ h hl hstep => length_step h hl hstep) (by decide) hok hrun
  obtain ⟨hbase, horigin⟩ : w.base = 0 ∧ w.origin = kWalMagic := by
    refine run_invariant (fun w => w.base = 0 ∧ w.origin = kWalMagic) ?_ ⟨rfl, rfl⟩ hok hrun
    intro s l s' h _ hstep
    obtain ⟨hb, ho, -⟩ := step_frame hstep
    exact ⟨hb.trans h.1, ho.trans h.2⟩
  have hbatches : w.batches = queued 1 false ls := batches_run hboot hok hrun
  have hspan : ∀ n, w.span 0 n = recordsBytes ((queued 1 false ls).take n).flatten := by
    intro n
    rw [span, hbatches, List.drop_zero]
  rw [hbase, horigin] at hacked
  have hcontent := hs.content
  rw [hbase, horigin] at hcontent
  refine ⟨?_, ?_, ?_⟩
  · have hkept := hs.kept
    rw [hbase, horigin] at hkept
    obtain ⟨written, hfile⟩ := (List.prefix_append _ _).trans hkept
    refine ⟨written, hfile.symm, ?_⟩
    rw [← hfile, List.append_assoc, List.append_cancel_left_eq] at hcontent
    have hall : recordsBytes (queued 1 false ls).flatten = w.span 0 w.batches.length := by
      rw [hspan, hbatches, List.take_length]
    rw [hall]
    exact List.IsPrefix.trans ⟨_, hcontent⟩ (span_mono hs.taken_le)
  · intro i e he hlt
    obtain ⟨hi, -⟩ := List.getElem?_eq_some_iff.1 he
    have hle := length_recordsBytes_le ((queued 1 false ls).flatten.take i)
    rw [List.length_take_of_le hi.le] at hle
    rw [List.length_append] at hlt
    have hnat : (UInt64.ofNat i).toNat = i := UInt64.toNat_ofNat_of_lt' (show i < 2 ^ 64 by omega)
    rw [sequence_queued he, UInt64.toNat_add, hnat]
    show (1 + i) % 2 ^ 64 = i + 1
    omega
  · intro i es hes hi
    have htake : kWalMagic ++ recordsBytes ((queued 1 false ls).take i).flatten ++ recordsBytes es =
        kWalMagic ++ w.span 0 (i + 1) := by
      rw [hspan, List.take_add_one, hes, List.flatten_append, recordsBytes_append]
      simp
    rw [htake]
    have hik : i < k := (hs.inv.acked_iff i).1 hi
    have hkept := hs.kept
    rw [hbase, horigin] at hkept
    exact ⟨((List.prefix_append_right_inj _).2 (span_mono hik)).trans hkept, hacked i hi⟩

/-- Two batches in two drains, the first in two pieces, the second cut short. -/
def twoDrains : List Label :=
  [.append [bareEntry .insert 0 0, bareEntry .delete 0 0] 7, .swap, .append [bareEntry .update 0 0] 8, .write 5, .write 77,
   .sync true, .fulfil, .endDrain, .swap, .write 10]

theorem group_commit_in_order_twoDrains : ∃ w, run (step .fsync) (walInitialize kWalMagic 8) twoDrains = some w ∧
    w.promises = [some true, none] ∧
    (∃ written, w.file = kWalMagic ++ written ∧ written <+: recordsBytes (queued 1 false twoDrains).flatten) ∧
    (∀ (i : Nat) (e : WALEntry), (queued 1 false twoDrains).flatten[i]? = some e →
      (kWalMagic ++ recordsBytes ((queued 1 false twoDrains).flatten.take i)).length < w.file.length →
      e.sequence.toNat = i + 1) ∧
    ∀ (i : Nat) (es : List WALEntry), (queued 1 false twoDrains)[i]? = some es → w.promises[i]? = some (some true) →
      kWalMagic ++ recordsBytes ((queued 1 false twoDrains).take i).flatten ++ recordsBytes es <+: w.file ∧
      SyncedBefore .fsync (walInitialize kWalMagic 8)
        (kWalMagic ++ recordsBytes ((queued 1 false twoDrains).take i).flatten ++ recordsBytes es) twoDrains :=
  ⟨_, rfl, rfl, group_commit_in_order .fsync twoDrains _ (by decide) rfl⟩

end OriginDB.Wal
