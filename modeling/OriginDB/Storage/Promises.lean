import OriginDB.Storage.Numbering
/-!
# Promises are fulfilled in order (`wal_impl.cpp:105-150, 236-268`)

The batches the writer has not answered for stand in the drain it is at and in `queue_`, oldest first, and
a promise is open exactly as long as its batch is there (`Fifo`). So a promise keeps the value it was given,
and no promise before one that was fulfilled with `true` is still open.
-/
namespace OriginDB

namespace Wal

/-- The promises the writer has yet to fulfil, in the order in which it will. -/
def pending (w : Wal) : List Nat := (w.inflight ++ w.queue).map PendingBatch.done

structure Fifo (w : Wal) : Prop where
  sorted : w.pending.Pairwise (· < ·)
  open_iff : ∀ i : Nat, w.promises[i]? = some none ↔ i ∈ w.pending
  durable : ∀ i : Nat, w.promises[i]? = some (some true) → ∀ j < i, w.promises[j]? ≠ some none

/-- What was reported stays reported. -/
def Keeps (w w' : Wal) : Prop := ∀ (i : Nat) (ok : Bool), w.promises[i]? = some (some ok) → w'.promises[i]? = some (some ok)

section Steps
variable {w w' : Wal}

theorem Keeps.of_eq (h : w'.promises = w.promises) : Keeps w w' := fun i ok hi => by rw [h, hi]

theorem Keeps.concat {p : Option Bool} (h : w'.promises = w.promises ++ [p]) : Keeps w w' := by
  intro i ok hi
  obtain ⟨hlt, -⟩ := List.getElem?_eq_some_iff.1 hi
  rw [h, List.getElem?_append_left hlt, hi]

theorem Fifo.congr (h : Fifo w) (hp : w'.promises = w.promises) (hq : w'.pending = w.pending) : Fifo w' :=
  ⟨by rw [hq]; exact h.sorted, fun i => by rw [hp, hq]; exact h.open_iff i, by rw [hp]; exact h.durable⟩

theorem Fifo.lt_length (h : Fifo w) {i : Nat} (hi : i ∈ w.pending) : i < w.promises.length :=
  (List.getElem?_eq_some_iff.1 ((h.open_iff i).2 hi)).1

/-- A promise that is fulfilled from the start, with `false`. -/
theorem Fifo.refused (h : Fifo w) (hp : w'.promises = w.promises ++ [some false]) (hq : w'.pending = w.pending) :
    Fifo w' := by
  have hget : ∀ (i : Nat) (v : Option Bool), v ≠ some false → (w'.promises[i]? = some v ↔ w.promises[i]? = some v) := by
    intro i v hv
    rw [hp]
    rcases Nat.lt_trichotomy i w.promises.length with hlt | rfl | hgt
    · rw [List.getElem?_append_left hlt]
    · simp [hv.symm]
    · rw [List.getElem?_eq_none (by simp; omega), List.getElem?_eq_none (by omega)]
  refine ⟨by rw [hq]; exact h.sorted, fun i => by rw [hget i none (by simp), hq]; exact h.open_iff i, ?_⟩
  intro i hi j hj hnone
  exact h.durable i ((hget i _ (by simp)).1 hi) j hj ((hget j none (by simp)).1 hnone)

/-- A new promise, behind all the others. -/
theorem Fifo.queued (h : Fifo w) (hp : w'.promises = w.promises ++ [none])
    (hq : w'.pending = w.pending ++ [w.promises.length]) : Fifo w' := by
  refine ⟨?_, ?_, ?_⟩
  · rw [hq, List.pairwise_append]
    refine ⟨h.sorted, List.pairwise_singleton _ _, ?_⟩
    intro i hi j hj
    rw [List.mem_singleton.1 hj]
    exact h.lt_length hi
  · intro i
    rw [hp, hq, List.mem_append, List.mem_singleton, ← h.open_iff]
    rcases Nat.lt_trichotomy i w.promises.length with hlt | rfl | hgt
    · rw [List.getElem?_append_left hlt]
      constructor
      · exact Or.inl
      · rintro (h | h)
        · exact h
        · omega
    · simp
    · rw [List.getElem?_eq_none (by simp; omega), List.getElem?_eq_none (by omega)]
      simp
      omega
  · intro i hi j hj hnone
    have hlt : i < w.promises.length := by
      rw [hp] at hi
      obtain ⟨hlt, hi⟩ := List.getElem?_eq_some_iff.1 hi
      rw [List.length_append, List.length_singleton] at hlt
      by_contra hge
      have heq : i = w.promises.length := by omega
      subst heq
      simp at hi
    rw [hp, List.getElem?_append_left hlt] at hi
    rw [hp, List.getElem?_append_left (by omega)] at hnone
    exact h.durable i hi j hj hnone

/-- The oldest open promise is fulfilled. -/
theorem Fifo.fulfilled {i : Nat} {ok : Bool} (h : Fifo w) (hw : w.pending = i :: w'.pending)
    (hp : w'.promises = w.promises.set i (some ok)) : Fifo w' ∧ Keeps w w' := by
  have hsorted := h.sorted
  rw [hw, List.pairwise_cons] at hsorted
  have hopen : w.promises[i]? = some none := (h.open_iff i).2 (by simp [hw])
  have hlt : i < w.promises.length := (List.getElem?_eq_some_iff.1 hopen).1
  have hset : w'.promises[i]? = some (some ok) := by rw [hp, List.getElem?_set_self hlt]
  have hother : ∀ j : Nat, j ≠ i → w'.promises[j]? = w.promises[j]? := fun j hj => by
    rw [hp, List.getElem?_set_ne (Ne.symm hj)]
  refine ⟨⟨hsorted.2, ?_, ?_⟩, ?_⟩
  · intro j
    by_cases hj : j = i
    · subst hj
      rw [hset]
      constructor
      · intro hc
        cases hc
      · intro hmem
        exact absurd (hsorted.1 j hmem) (Nat.lt_irrefl _)
    · rw [hother j hj, h.open_iff, hw, List.mem_cons]
      exact ⟨fun hc => hc.resolve_left hj, Or.inr⟩
  · intro m hm j hj hnone
    have hji : j ≠ i := by
      rintro rfl
      rw [hset] at hnone
      cases hnone
    rw [hother j hji] at hnone
    by_cases hmi : m = i
    · -- nothing that is still open stands before the oldest
      subst hmi
      have hmem := (h.open_iff j).1 hnone
      rw [hw, List.mem_cons] at hmem
      have := hsorted.1 j (hmem.resolve_left hji)
      omega
    · rw [hother m hmi] at hm
      exact h.durable m hm j hj hnone
  · intro j b hj
    have hji : j ≠ i := by
      rintro rfl
      rw [hopen] at hj
      cases hj
    rw [hother j hji, hj]

@[simp] theorem length_promises_append (w : Wal) (es : List WALEntry) (ts : UInt64) :
    (w.appendBatchAsync es ts).promises.length = w.promises.length + 1 := by
  unfold appendBatchAsync
  split <;> simp [enqueue]

theorem Fifo.append (h : Fifo w) (es : List WALEntry) (ts : UInt64) :
    Fifo (w.appendBatchAsync es ts) ∧ Keeps w (w.appendBatchAsync es ts) := by
  unfold appendBatchAsync
  split
  · exact ⟨h.refused rfl rfl, Keeps.concat rfl⟩
  · refine ⟨h.queued rfl ?_, Keeps.concat rfl⟩
    simp [pending, inflight, enqueue]

theorem Fifo.barrier (h : Fifo w) : Fifo (w.enqueue []) ∧ Keeps w (w.enqueue []) := by
  refine ⟨h.queued rfl ?_, Keeps.concat rfl⟩
  simp [pending, inflight, enqueue]

/-- The writer fulfils the oldest open promise, or none. -/
theorem step_pending {mode : SyncMode} {l : Label} (hl : Server.byWriter l = true) (hstep : w.step mode l = some w') :
    (w'.promises = w.promises ∧ w'.pending = w.pending) ∨
    ∃ i ok, w.pending = i :: w'.pending ∧ w'.promises = w.promises.set i (some ok) := by
  cases l with
  | append _ _ | drain | stopWriter | exit => cases hl
  | fulfil =>
    simp only [Wal.step] at hstep
    split at hstep
    · rename_i p todo ok hw
      cases hstep
      exact Or.inr ⟨p.done, ok, by simp [pending, inflight, hw], rfl⟩
    · cases hstep
  | swap =>
    simp only [Wal.step] at hstep
    split at hstep
    · rename_i hw
      cases hstep
      exact Or.inl ⟨rfl, by simp [pending, inflight, hw.1]⟩
    · cases hstep
  | _ =>
    simp only [Wal.step] at hstep
    repeat' split at hstep
    all_goals first
      | (cases hstep; done)
      | (cases hstep; exact Or.inl ⟨rfl, by simp only [pending, inflight, *]⟩)

theorem Fifo.writer {mode : SyncMode} {l : Label} (h : Fifo w) (hl : Server.byWriter l = true)
    (hstep : w.step mode l = some w') : Fifo w' ∧ Keeps w w' := by
  rcases step_pending hl hstep with ⟨hp, hq⟩ | ⟨i, ok, hq, hp⟩
  · exact ⟨h.congr hp hq, Keeps.of_eq hp⟩
  · exact h.fulfilled hq hp

end Steps

end Wal

namespace Server

variable {env : Env} {mode : SyncMode} {feed : Bool} {s s' : Server} {l : Label}

theorem length_promises_le (hstep : step env mode feed s l = some s') :
    s.wal.promises.length ≤ s'.wal.promises.length := by
  rcases step_wal hstep with ⟨hp, -, -⟩ | ⟨hp, -, -⟩ | ⟨ts, hw⟩
  · omega
  · omega
  · rw [hw, Wal.length_promises_append]
    omega

/-- **Promises are fulfilled in order**, and once: over every step of the server. -/
theorem fifo_step (h : s.wal.Fifo) (hstep : step env mode feed s l = some s') : s'.wal.Fifo ∧ s.wal.Keeps s'.wal := by
  have hsame : ∀ w : Wal, w.promises = s.wal.promises → w.pending = s.wal.pending → w.Fifo ∧ s.wal.Keeps w :=
    fun w hp hq => ⟨h.congr hp hq, Wal.Keeps.of_eq hp⟩
  have hdrain : s.drainLog.1.wal.Fifo ∧ s.wal.Keeps s.drainLog.1.wal := by
    rcases s.drainLog_wal with hw | hw
    · rw [hw]
      exact hsame _ rfl rfl
    · rw [hw]
      exact h.barrier
  by_cases hl : l.ofCheckpoint = false
  · rcases step_cases hl hstep with ⟨e', lock, hq⟩ | ⟨c, ts, e', lock, ha⟩ | ⟨wl, w, rfl, hby, hw, rfl⟩ | ⟨rfl, -, rfl⟩
    · rw [hq.eq]
      exact hsame _ rfl rfl
    · rw [ha.eq]
      exact h.append _ ts
    · exact h.writer hby hw
    · exact hdrain
  · rcases checkpoint_cases (by simpa using hl) hstep with ⟨hw, -⟩ | ⟨-, -, rfl⟩ | ⟨opened, w, -, -, hw, rfl⟩ |
      ⟨opened, n, -, -, rfl⟩
    · rw [hw]
      exact hsame _ rfl rfl
    · exact hdrain
    · rw [Wal.truncateFile_eq hw]
      split
      · exact hsame _ rfl rfl
      · exact hsame _ rfl rfl
    · show (s.wal.reopen opened n).Fifo ∧ s.wal.Keeps (s.wal.reopen opened n)
      unfold Wal.reopen
      split
      · exact hsame _ rfl rfl
      · split
        · exact hsame _ rfl rfl
        · exact hsame _ rfl rfl

end Server

end OriginDB
