import OriginDB.Storage.ServerInv
/-!
# Sequence numbers follow the order of the batches

`AppendBatchAsync` numbers the entries of a batch while the caller holds `tables_mutex_`, so the numbers
grow from one batch to the next, until they wrap around (`Numbered`).
-/
namespace OriginDB

namespace Wal

/-- The numbers grow with the batches, and there is a promise for each. -/
structure Numbered (w : Wal) : Prop where
  length : w.promises.length = w.batches.length
  below : ∀ b ∈ w.batches, ∀ e ∈ b, e.sequence < w.nextSequence
  increasing : w.batches.Pairwise fun a b => ∀ x ∈ a, ∀ y ∈ b, x.sequence < y.sequence

theorem mem_assign {next ts : UInt64} {es : List WALEntry} {e : WALEntry} (h : e ∈ assign next ts es)
    (hroom : next.toNat + es.length < 2 ^ 64) :
    next ≤ e.sequence ∧ e.sequence < next + UInt64.ofNat es.length := by
  induction es generalizing next with
  | nil => simp [assign] at h
  | cons x es ih =>
    simp only [List.length_cons] at hroom
    have hlen : (UInt64.ofNat (es.length + 1)).toNat = es.length + 1 := UInt64.toNat_ofNat_of_lt' (show _ < 2 ^ 64 by omega)
    have hsum : (next + UInt64.ofNat (es.length + 1)).toNat = next.toNat + (es.length + 1) := by
      rw [UInt64.toNat_add, hlen]
      omega
    rw [assign, List.mem_cons] at h
    rw [List.length_cons, UInt64.lt_iff_toNat_lt, UInt64.le_iff_toNat_le, hsum]
    rcases h with rfl | h
    · exact ⟨Nat.le_refl _, by show next.toNat < _; omega⟩
    · have hnext : (next + 1).toNat = next.toNat + 1 := by
        rw [UInt64.toNat_add]
        show (next.toNat + 1) % 2 ^ 64 = _
        omega
      have hlen' : (UInt64.ofNat es.length).toNat = es.length := UInt64.toNat_ofNat_of_lt' (show _ < 2 ^ 64 by omega)
      obtain ⟨h1, h2⟩ := ih h (by omega)
      rw [UInt64.lt_iff_toNat_lt, UInt64.toNat_add, hlen', hnext] at h2
      rw [UInt64.le_iff_toNat_le, hnext] at h1
      exact ⟨by omega, by omega⟩

/-- The writer's own steps make no promises. -/
theorem length_promises_writer {mode : SyncMode} {w w' : Wal} {l : Label} (hl : Server.byWriter l = true)
    (hstep : w.step mode l = some w') : w'.promises.length = w.promises.length := by
  cases l with
  | append _ _ | drain | stopWriter | exit => cases hl
  | _ =>
    simp only [Wal.step] at hstep
    repeat' split at hstep
    all_goals first
      | (cases hstep; done)
      | (cases hstep; simp)

section Steps
variable {w w' : Wal}

theorem Numbered.congr (h : Numbered w) (hp : w'.promises.length = w.promises.length) (hb : w'.batches = w.batches)
    (hn : w'.nextSequence = w.nextSequence) : Numbered w' :=
  ⟨by rw [hp, hb, h.length], by rw [hb, hn]; exact h.below, by rw [hb]; exact h.increasing⟩

/-- A batch with no entries: a barrier, or one that was refused. -/
theorem Numbered.empty (h : Numbered w) (hp : w'.promises.length = w.promises.length + 1)
    (hb : w'.batches = w.batches ++ [[]]) (hn : w'.nextSequence = w.nextSequence) : Numbered w' := by
  refine ⟨by rw [hp, hb, h.length, List.length_append, List.length_singleton], ?_, ?_⟩
  · rw [hb, hn]
    intro b hmem
    rcases List.mem_append.1 hmem with hmem | hmem
    · exact h.below b hmem
    · rw [List.mem_singleton.1 hmem]
      simp
  · rw [hb, List.pairwise_append]
    refine ⟨h.increasing, List.pairwise_singleton _ _, ?_⟩
    intro a _ b hmem x _
    rw [List.mem_singleton.1 hmem]
    simp

theorem Numbered.append (h : Numbered w) (entries : List WALEntry) (ts : UInt64)
    (hroom : w.nextSequence.toNat + entries.length < 2 ^ 64) : Numbered (w.appendBatchAsync entries ts) := by
  cases hf : w.fatal with
  | true =>
    refine h.empty ?_ ?_ ?_
    · simp [appendBatchAsync, hf]
    · simp [appendBatchAsync, hf]
    · simp [appendBatchAsync, hf]
  | false =>
    have hle : w.nextSequence ≤ w.nextSequence + UInt64.ofNat entries.length := by
      have hlen : (UInt64.ofNat entries.length).toNat = entries.length := UInt64.toNat_ofNat_of_lt' (show _ < 2 ^ 64 by omega)
      rw [UInt64.le_iff_toNat_le, UInt64.toNat_add, hlen]
      omega
    rw [appendBatchAsync_eq hf]
    refine ⟨by simp [enqueue, h.length], ?_, ?_⟩
    · intro b hmem e he
      rcases List.mem_append.1 hmem with hmem | hmem
      · exact UInt64.lt_of_lt_of_le (h.below b hmem e he) hle
      · rw [List.mem_singleton.1 hmem] at he
        exact (mem_assign he hroom).2
    · show (w.batches ++ [_]).Pairwise _
      rw [List.pairwise_append]
      refine ⟨h.increasing, List.pairwise_singleton _ _, ?_⟩
      intro a ha b hmem x hx y hy
      rw [List.mem_singleton.1 hmem] at hy
      exact UInt64.lt_of_lt_of_le (h.below a ha x hx) (mem_assign hy hroom).1

theorem numbered_walInitialize (file : Bytes) (n : Nat) : Numbered (walInitialize file n) :=
  ⟨rfl, by simp [walInitialize], by simp [walInitialize]⟩

end Steps

end Wal

namespace Server

/-! ## Over the steps of the server -/

section
variable {env : Env} {mode : SyncMode} {feed : Bool} {s s' : Server} {l : Label}

theorem drainLog_wal (s : Server) : s.drainLog.1.wal = s.wal ∨ s.drainLog.1.wal = s.wal.enqueue [] := by
  unfold drainLog
  split
  · exact Or.inl rfl
  · rename_i hno
    exact Or.inr (if_neg hno)

/-- What a step adds to the promises: one for a batch or a barrier, or none. -/
theorem step_wal (hstep : step env mode feed s l = some s') :
    (s'.wal.promises.length = s.wal.promises.length ∧ s'.wal.batches = s.wal.batches ∧
      s'.wal.nextSequence = s.wal.nextSequence) ∨
    (s'.wal.promises.length = s.wal.promises.length + 1 ∧ s'.wal.batches = s.wal.batches ++ [[]] ∧
      s'.wal.nextSequence = s.wal.nextSequence) ∨
    ∃ ts, s'.wal = s.wal.appendBatchAsync (batchOf env feed s l) ts := by
  have hbarrier : ∀ w : Wal, w = s.wal ∨ w = s.wal.enqueue [] →
      (w.promises.length = s.wal.promises.length ∧ w.batches = s.wal.batches ∧ w.nextSequence = s.wal.nextSequence) ∨
      (w.promises.length = s.wal.promises.length + 1 ∧ w.batches = s.wal.batches ++ [[]] ∧
        w.nextSequence = s.wal.nextSequence) := by
    rintro w (rfl | rfl)
    · exact Or.inl ⟨rfl, rfl, rfl⟩
    · exact Or.inr ⟨by simp [Wal.enqueue], rfl, rfl⟩
  by_cases hl : l.ofCheckpoint = false
  · rcases step_cases hl hstep with ⟨e', lock, hq⟩ | ⟨c, ts, e', lock, ha⟩ | ⟨wl, w, rfl, hby, hw, rfl⟩ | ⟨rfl, -, rfl⟩
    · rw [hq.eq]
      exact Or.inl ⟨rfl, rfl, rfl⟩
    · rw [ha.eq]
      exact Or.inr (Or.inr ⟨ts, rfl⟩)
    · obtain ⟨hb, -, -, -, hn⟩ := writer_frame hby hw
      exact Or.inl ⟨Wal.length_promises_writer hby hw, hb, hn⟩
    · rcases hbarrier _ s.drainLog_wal with h | h
      · exact Or.inl h
      · exact Or.inr (Or.inl h)
  · rcases checkpoint_cases (by simpa using hl) hstep with ⟨hw, -⟩ | ⟨-, -, rfl⟩ | ⟨opened, w, -, -, hw, rfl⟩ |
      ⟨opened, n, -, -, rfl⟩
    · rw [hw]
      exact Or.inl ⟨rfl, rfl, rfl⟩
    · rcases hbarrier _ s.drainLog_wal with h | h
      · exact Or.inl h
      · exact Or.inr (Or.inl h)
    · rw [Wal.truncateFile_eq hw]
      refine Or.inl ?_
      split <;> exact ⟨rfl, rfl, rfl⟩
    · refine Or.inl ?_
      show (s.wal.reopen opened n).promises.length = _ ∧ (s.wal.reopen opened n).batches = _ ∧
        (s.wal.reopen opened n).nextSequence = _
      unfold Wal.reopen
      split
      · exact ⟨rfl, rfl, rfl⟩
      · split <;> exact ⟨rfl, rfl, rfl⟩

/-- The batch of a step is numbered without wrapping around. -/
def Numbers (env : Env) (feed : Bool) (s : Server) (l : Label) : Prop :=
  s.wal.nextSequence.toNat + (batchOf env feed s l).length < 2 ^ 64

instance (s : Server) (l : Label) : Decidable (Numbers env feed s l) := inferInstanceAs (Decidable (_ < _))

theorem numbered_step (h : s.wal.Numbered) (hok : Numbers env feed s l) (hstep : step env mode feed s l = some s') :
    s'.wal.Numbered := by
  rcases step_wal hstep with ⟨hp, hb, hn⟩ | ⟨hp, hb, hn⟩ | ⟨ts, hw⟩
  · exact h.congr hp hb hn
  · exact h.empty hp hb hn
  · rw [hw]
    exact h.append _ ts hok

end

end Server

end OriginDB
