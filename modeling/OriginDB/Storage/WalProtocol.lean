import OriginDB.Storage.WalWriter
/-!
# What the WAL writer guarantees, and when

Batches are numbered in the order they were enqueued. As long as nothing fails, the file is what was
there at the last truncation, then the records of the batches swapped out so far, and the promises
fulfilled with `true` are those of the first `k` (`Sound`). A failed `write()` or sync ends that: from
then on the file must not grow any more (`Failed`), which is what `fatal_` is for. The writer does not
look at `fatal_` itself, though: batches that were queued before it was set are still swapped out and
written behind the torn record. `Permitted` is the condition that this does not happen.
-/
namespace OriginDB.Wal

open ByteCodec

/-! ## The two phases of a run -/

/-- Every batch so far, as it was enqueued. -/
def all (w : Wal) : List PendingBatch := w.batches.zipIdx.map fun (es, i) => ⟨recordsBytes es, i⟩

def inflight (w : Wal) : List PendingBatch :=
  match w.writer with
  | .writing drained _ => drained
  | .fulfilling todo _ => todo
  | _ => []

def unwritten (w : Wal) : Bytes :=
  match w.writer with
  | .writing _ rest => rest
  | _ => []

/-- The records of batches `m` to `n`. -/
def span (w : Wal) (m n : Nat) : Bytes := recordsBytes ((w.batches.take n).drop m).flatten

structure Sound (w : Wal) (k q : Nat) : Prop where
  acked_le : k ≤ q
  taken_le : q ≤ w.batches.length
  base_le : w.base ≤ k
  promises : w.promises = List.replicate k (some true) ++ List.replicate (w.batches.length - k) none
  inflight : w.inflight = (w.all.take q).drop k
  queue : w.queue = w.all.drop q
  content : w.file ++ w.unwritten = w.origin ++ w.span w.base q
  kept : w.origin ++ w.span w.base k <+: w.file
  fatal : w.fatal = false
  good : ∀ todo, w.writer ≠ .fulfilling todo false
  busy : ∀ drained rest, w.writer = .writing drained rest → k < q

/-- Where the writer stands after a failure. -/
inductive Ended (w : Wal) (k : Nat) : Prop where
  | fulfilling (todo : List PendingBatch) (h : w.writer = .fulfilling todo false) (hk : ∀ p ∈ todo, k ≤ p.done)
  | fatal (h : w.writer = .waiting ∨ w.writer = .exited) (hf : w.fatal = true)

structure Failed (w : Wal) (k : Nat) : Prop where
  acked_lt : k < w.batches.length
  base_le : w.base ≤ k
  length : w.promises.length = w.batches.length
  acked : ∀ i < k, w.promises[i]? = some (some true)
  unacked : ∀ i, k ≤ i → w.promises[i]? ≠ some (some true)
  kept : w.origin ++ w.span w.base k <+: w.file
  within : w.file <+: w.origin ++ w.span w.base w.batches.length
  ended : Ended w k

/-- The first `k` promises, and no other, are fulfilled with `true`. -/
def Inv (w : Wal) (k : Nat) : Prop := (∃ q, Sound w k q) ∨ Failed w k

theorem Sound.inv {w : Wal} {k q : Nat} (h : Sound w k q) : Inv w k := Or.inl ⟨q, h⟩

theorem Failed.inv {w : Wal} {k : Nat} (h : Failed w k) : Inv w k := Or.inr h

/-! ## Spans -/

section Span
variable {w : Wal}

@[simp] theorem length_all (w : Wal) : w.all.length = w.batches.length := by simp [all]

theorem span_self (w : Wal) (n : Nat) : w.span n n = [] := by
  simp [span]

theorem span_append {m k n : Nat} (h1 : m ≤ k) (h2 : k ≤ n) : w.span m n = w.span m k ++ w.span k n := by
  have hn : w.batches.take n = w.batches.take k ++ (w.batches.take n).drop k := by
    have h := (List.take_append_drop k (w.batches.take n)).symm
    rwa [List.take_take, Nat.min_eq_left h2] at h
  by_cases hk : k ≤ w.batches.length
  · have hlen : (w.batches.take k).length = k := by simp [hk]
    have hd : (w.batches.take n).drop m = (w.batches.take k).drop m ++ (w.batches.take n).drop k := by
      conv_lhs => rw [hn]
      rw [List.drop_append_of_le_length (by omega)]
    rw [span, hd, List.flatten_append, recordsBytes_append]
    rfl
  · have ht : w.batches.take n = w.batches.take k := by
      rw [List.take_of_length_le (by omega), List.take_of_length_le (by omega)]
    have hd : (w.batches.take n).drop k = [] := List.drop_eq_nil_of_le (by simp; omega)
    rw [ht] at hd
    simp [span, ht, hd]

theorem span_mono {m k n : Nat} (h : k ≤ n) : w.span m k <+: w.span m n := by
  by_cases hm : m ≤ k
  · rw [span_append hm h]
    exact List.prefix_append _ _
  · have hnil : (w.batches.take k).drop m = [] := List.drop_eq_nil_of_le (by simp; omega)
    rw [span, hnil]
    exact List.nil_prefix

theorem recordsBytes_flatten (bs : List (List WALEntry)) : recordsBytes bs.flatten = bs.flatMap recordsBytes := by
  induction bs with
  | nil => rfl
  | cons b bs ih => rw [List.flatten_cons, recordsBytes_append, ih, List.flatMap_cons]

theorem map_bytes_all (w : Wal) : w.all.map (·.bytes) = w.batches.map recordsBytes := by
  have h : w.all.map (·.bytes) = (w.batches.zipIdx.map Prod.fst).map recordsBytes := by
    simp only [all, List.map_map]
    rfl
  rw [h, List.zipIdx_map_fst]

theorem span_eq_bytes (w : Wal) (m n : Nat) : w.span m n = ((w.all.take n).drop m).flatMap (·.bytes) := by
  rw [span, recordsBytes_flatten, List.flatMap_def, List.flatMap_def, List.map_drop, List.map_take, List.map_drop,
    List.map_take, map_bytes_all]

theorem getElem?_all (w : Wal) (i : Nat) : w.all[i]? = (w.batches[i]?).map fun es => ⟨recordsBytes es, i⟩ := by
  simp [all, List.getElem?_map, List.getElem?_zipIdx, Function.comp_def]

end Span

/-! ## Steps that keep `Sound` -/

section Steps
variable {w w' : Wal} {k q : Nat}

/-- The fields the two phases speak of. -/
def core (w : Wal) :=
  (w.file, w.queue, w.fatal, w.writer, w.promises, w.batches, w.base, w.origin)

theorem Sound.congr (h : Sound w k q) (e : w'.core = w.core) : Sound w' k q := by
  obtain ⟨file, images, fd, next, queue, fatal, stop, writer, promises, batches, base, origin⟩ := w
  obtain ⟨file', images', fd', next', queue', fatal', stop', writer', promises', batches', base', origin'⟩ := w'
  simp only [core, Prod.mk.injEq] at e
  obtain ⟨rfl, rfl, rfl, rfl, rfl, rfl, rfl, rfl⟩ := e
  exact ⟨h.1, h.2, h.3, h.4, h.5, h.6, h.7, h.8, h.9, h.10, h.11⟩

theorem Failed.congr (h : Failed w k) (e : w'.core = w.core) : Failed w' k := by
  obtain ⟨file, images, fd, next, queue, fatal, stop, writer, promises, batches, base, origin⟩ := w
  obtain ⟨file', images', fd', next', queue', fatal', stop', writer', promises', batches', base', origin'⟩ := w'
  simp only [core, Prod.mk.injEq] at e
  obtain ⟨rfl, rfl, rfl, rfl, rfl, rfl, rfl, rfl⟩ := e
  refine ⟨h.1, h.2, h.3, h.4, h.5, h.6, h.7, ?_⟩
  cases h.ended with
  | fulfilling todo ht hk => exact .fulfilling todo ht hk
  | fatal hw hf => exact .fatal hw hf

theorem all_enqueue (w : Wal) (es : List WALEntry) :
    (w.enqueue es).all = w.all ++ [⟨recordsBytes es, w.batches.length⟩] := by
  simp [all, enqueue, List.zipIdx_append]

theorem span_enqueue (w : Wal) (es : List WALEntry) {m n : Nat} (h : n ≤ w.batches.length) :
    (w.enqueue es).span m n = w.span m n := by
  simp only [span, enqueue]
  rw [List.take_append_of_le_length h]

theorem Sound.length (h : Sound w k q) : w.promises.length = w.batches.length := by
  have hk := h.acked_le
  have hq := h.taken_le
  rw [h.promises]
  simp
  omega

theorem Sound.enqueue (h : Sound w k q) (es : List WALEntry) : Sound (w.enqueue es) k q := by
  have hk := h.acked_le
  have hq := h.taken_le
  have hb : (w.enqueue es).batches.length = w.batches.length + 1 := by simp [Wal.enqueue]
  refine ⟨hk, by omega, h.base_le, ?_, ?_, ?_, ?_, ?_, h.fatal, h.good, h.busy⟩
  · show w.promises ++ [none] = _
    rw [hb, h.promises, List.append_assoc, show w.batches.length + 1 - k = w.batches.length - k + 1 by omega,
      List.replicate_succ']
  · rw [all_enqueue, List.take_append_of_le_length (by simpa using hq)]
    exact h.inflight
  · show w.queue ++ _ = _
    rw [all_enqueue, List.drop_append_of_le_length (by simpa using hq), h.queue, h.length]
  · rw [span_enqueue w es hq]
    exact h.content
  · rw [span_enqueue w es (by omega)]
    exact h.kept

theorem Sound.swap (h : Sound w k q) (hw : w.writer = .waiting) (hqueue : w.queue ≠ []) :
    Sound { w with writer := .writing w.queue (w.queue.flatMap (·.bytes)), queue := [] } k w.batches.length := by
  have hq := h.taken_le
  have hkq : k = q := by
    have hin := h.inflight
    simp only [Wal.inflight, hw] at hin
    have hlen := congrArg List.length hin
    simp at hlen
    have := h.acked_le
    omega
  subst hkq
  have hlt : k < w.batches.length := by
    by_contra hge
    rw [h.queue, List.drop_eq_nil_of_le (by simp; omega)] at hqueue
    exact hqueue rfl
  refine ⟨hq, Nat.le_refl _, h.base_le, h.promises, ?_, ?_, ?_, h.kept, h.fatal, by simp,
    fun _ _ _ => hlt⟩
  · show w.queue = (w.all.take w.batches.length).drop k
    rw [List.take_of_length_le (by simp), h.queue]
  · show [] = w.all.drop w.batches.length
    rw [List.drop_eq_nil_of_le (by simp)]
  · have hfile : w.file = w.origin ++ w.span w.base k := by
      have hc := h.content
      simpa [unwritten, hw] using hc
    have hqueue : w.queue.flatMap (·.bytes) = w.span k w.batches.length := by
      rw [span_eq_bytes, List.take_of_length_le (by simp), h.queue]
    show w.file ++ w.queue.flatMap (·.bytes) = w.origin ++ w.span w.base w.batches.length
    rw [hfile, hqueue, span_append h.base_le hq, List.append_assoc]

theorem Sound.write {drained : List PendingBatch} {rest : Bytes} (h : Sound w k q)
    (hw : w.writer = .writing drained rest) (n : Nat) (images : List (Bytes × Bytes)) :
    Sound { w with file := w.file ++ rest.take n, images := images, writer := .writing drained (rest.drop n) } k q := by
  refine ⟨h.acked_le, h.taken_le, h.base_le, h.promises, ?_, h.queue, ?_, ?_, h.fatal, by simp,
    fun _ _ _ => h.busy _ _ hw⟩
  · have hin := h.inflight
    simp only [Wal.inflight, hw] at hin
    exact hin
  · have hc := h.content
    simp only [unwritten, hw] at hc
    show w.file ++ rest.take n ++ rest.drop n = _
    rw [List.append_assoc, List.take_append_drop]
    exact hc
  · exact h.kept.trans (List.prefix_append _ _)

theorem Sound.synced {drained : List PendingBatch} (h : Sound w k q) (hw : w.writer = .writing drained [])
    (images : List (Bytes × Bytes)) :
    Sound { w with images := images, writer := .fulfilling drained true } k q := by
  refine ⟨h.acked_le, h.taken_le, h.base_le, h.promises, ?_, h.queue, ?_, h.kept, h.fatal, by simp, by simp⟩
  · have hin := h.inflight
    simp only [Wal.inflight, hw] at hin
    exact hin
  · have hc := h.content
    simp only [unwritten, hw] at hc
    exact hc

/-- The promises to keep are those of the batches that were written, in order. -/
theorem Sound.todo {p : PendingBatch} {todo : List PendingBatch} (h : Sound w k q)
    (hw : w.writer = .fulfilling (p :: todo) true) :
    k < q ∧ p.done = k ∧ (w.all.take q).drop k = p :: todo := by
  have hin := h.inflight
  simp only [Wal.inflight, hw] at hin
  have hlen := congrArg List.length hin
  simp at hlen
  have hkq : k < q := by omega
  have hdrop : (w.all.take q).drop k = p :: todo := hin.symm
  refine ⟨hkq, ?_, hdrop⟩
  have h0 : (w.all.take q)[k]? = some p := by
    have hg : ((w.all.take q).drop k)[0]? = (w.all.take q)[k + 0]? := List.getElem?_drop
    rw [hdrop] at hg
    simpa using hg.symm
  rw [List.getElem?_take_of_lt hkq, getElem?_all] at h0
  obtain ⟨es, -, rfl⟩ := Option.map_eq_some_iff.1 h0
  rfl

theorem Sound.fulfil {p : PendingBatch} {todo : List PendingBatch} (h : Sound w k q)
    (hw : w.writer = .fulfilling (p :: todo) true) :
    Sound { w with promises := w.promises.set p.done (some true), writer := .fulfilling todo true } (k + 1) q := by
  have hq := h.taken_le
  obtain ⟨hkq, hp, hdrop⟩ := h.todo hw
  refine ⟨hkq, hq, Nat.le_succ_of_le h.base_le, ?_, ?_, h.queue, ?_, ?_, h.fatal, by simp, by simp⟩
  · show w.promises.set p.done (some true) = _
    rw [hp, h.promises, show w.batches.length - k = w.batches.length - (k + 1) + 1 by omega,
      List.set_append_right _ _ (by simp), List.length_replicate, Nat.sub_self, List.replicate_succ, List.set_cons_zero,
      List.replicate_succ', List.append_assoc]
    rfl
  · show todo = (w.all.take q).drop (k + 1)
    rw [← List.drop_drop, hdrop]
    rfl
  · have hc := h.content
    simp only [unwritten, hw] at hc
    exact hc
  · have hc := h.content
    simp only [unwritten, hw, List.append_nil] at hc
    show w.origin ++ w.span w.base (k + 1) <+: w.file
    rw [hc]
    exact (List.prefix_append_right_inj _).2 (span_mono hkq)

theorem Sound.fail {drained : List PendingBatch} {rest : Bytes} (h : Sound w k q)
    (hw : w.writer = .writing drained rest) :
    Failed { w with writer := .fulfilling drained false } k := by
  have hkq := h.busy _ _ hw
  have hq := h.taken_le
  have hin := h.inflight
  simp only [Wal.inflight, hw] at hin
  refine ⟨Nat.lt_of_lt_of_le hkq hq, h.base_le, h.length, ?_, ?_, h.kept, ?_, ?_⟩
  · intro i hi
    show w.promises[i]? = _
    rw [h.promises, List.getElem?_append_left (by simpa using hi)]
    simp [hi]
  · intro i hi
    show w.promises[i]? ≠ _
    rw [h.promises, List.getElem?_append_right (by simpa using hi)]
    simp [List.getElem?_replicate]
  · have hc := h.content
    simp only [unwritten, hw] at hc
    show w.file <+: w.origin ++ w.span w.base w.batches.length
    refine List.IsPrefix.trans ⟨rest, hc⟩ ?_
    exact (List.prefix_append_right_inj _).2 (span_mono hq)
  · refine .fulfilling drained rfl fun p hp => ?_
    rw [hin] at hp
    obtain ⟨i, hi⟩ := List.mem_iff_getElem?.1 hp
    rw [List.getElem?_drop] at hi
    have hlt : k + i < q := by
      by_contra hge
      rw [List.getElem?_take_eq_none (by omega)] at hi
      cases hi
    rw [List.getElem?_take_of_lt hlt, getElem?_all] at hi
    obtain ⟨es, -, rfl⟩ := Option.map_eq_some_iff.1 hi
    show k ≤ k + i
    omega

theorem Sound.endDrain {ok : Bool} (h : Sound w k q) (hw : w.writer = .fulfilling [] ok) :
    Sound { w with writer := .waiting, fatal := w.fatal || !ok } k q := by
  have hok : ok = true := by
    cases ok with
    | true => rfl
    | false => exact absurd hw (h.good [])
  refine ⟨h.acked_le, h.taken_le, h.base_le, h.promises, ?_, h.queue, ?_, h.kept, by simp [h.fatal, hok], by simp, by simp⟩
  · have hin := h.inflight
    simp only [Wal.inflight, hw] at hin
    exact hin
  · have hc := h.content
    simp only [unwritten, hw] at hc
    exact hc

theorem Sound.exit (h : Sound w k q) (hw : w.writer = .waiting) : Sound { w with writer := .exited } k q := by
  refine ⟨h.acked_le, h.taken_le, h.base_le, h.promises, ?_, h.queue, ?_, h.kept, h.fatal, by simp, by simp⟩
  · have hin := h.inflight
    simp only [Wal.inflight, hw] at hin
    exact hin
  · have hc := h.content
    simp only [unwritten, hw] at hc
    exact hc

/-! ## Steps that keep `Failed` -/

/-- A further batch, whether it is queued or refused. -/
theorem Failed.more {p : Option Bool} {b : List WALEntry} (h : Failed w k) (hp : p ≠ some true)
    (queue : List PendingBatch) (next : UInt64) :
    Failed { w with promises := w.promises ++ [p], batches := w.batches ++ [b], queue := queue,
                    nextSequence := next } k := by
  have hk := h.acked_lt
  have hb := h.base_le
  refine ⟨by simp; omega, by simp; omega, by simp [h.length], ?_, ?_, ?_, ?_, ?_⟩
  · intro i hi
    rw [List.getElem?_append_left (by rw [h.length]; omega)]
    exact h.acked i hi
  · intro i hi
    by_cases hl : i < w.promises.length
    · rw [List.getElem?_append_left hl]
      exact h.unacked i hi
    · rw [List.getElem?_append_right (by omega), List.getElem?_singleton]
      split
      · simpa using hp
      · simp
  · show w.origin ++ recordsBytes (((w.batches ++ [b]).take k).drop w.base).flatten <+: w.file
    rw [List.take_append_of_le_length (by omega)]
    exact h.kept
  · show w.file <+: w.origin ++ recordsBytes (((w.batches ++ [b]).take (w.batches ++ [b]).length).drop w.base).flatten
    refine h.within.trans ((List.prefix_append_right_inj _).2 ?_)
    rw [span, List.take_length, List.take_length, List.drop_append_of_le_length (by omega), List.flatten_append,
      recordsBytes_append]
    exact List.prefix_append _ _
  · cases h.ended with
    | fulfilling todo ht hp => exact .fulfilling todo ht hp
    | fatal hw hf => exact .fatal hw hf

theorem Failed.fulfil {p : PendingBatch} {todo : List PendingBatch} {ok : Bool} (h : Failed w k)
    (hw : w.writer = .fulfilling (p :: todo) ok) :
    Failed { w with promises := w.promises.set p.done (some ok), writer := .fulfilling todo ok } k := by
  cases h.ended with
  | fatal hw' hf =>
    rw [hw] at hw'
    rcases hw' with hw' | hw' <;> cases hw'
  | fulfilling todo' ht hp =>
    rw [hw] at ht
    simp only [Writer.fulfilling.injEq] at ht
    obtain ⟨rfl, rfl⟩ := ht
    have hpk := hp p (by simp)
    refine ⟨h.acked_lt, h.base_le, by simp [h.length], ?_, ?_, h.kept, h.within, ?_⟩
    · intro i hi
      show (w.promises.set p.done (some false))[i]? = _
      rw [List.getElem?_set_ne (by omega)]
      exact h.acked i hi
    · intro i hi
      show (w.promises.set p.done (some false))[i]? ≠ _
      by_cases he : p.done = i
      · subst he
        rw [List.getElem?_set]
        split
        · split <;> simp
        · exact h.unacked _ hi
      · rw [List.getElem?_set_ne he]
        exact h.unacked i hi
    · exact .fulfilling todo rfl fun r hr => hp r (by simp [hr])

theorem Failed.endDrain {ok : Bool} (h : Failed w k) (hw : w.writer = .fulfilling [] ok) :
    Failed { w with writer := .waiting, fatal := w.fatal || !ok } k := by
  have hf : (w.fatal || !ok) = true := by
    cases h.ended with
    | fulfilling todo ht _ =>
      rw [hw] at ht
      cases ht
      simp
    | fatal _ hf => simp [hf]
  exact ⟨h.acked_lt, h.base_le, h.length, h.acked, h.unacked, h.kept, h.within, .fatal (Or.inl rfl) hf⟩

theorem Failed.exit (h : Failed w k) (hw : w.writer = .waiting) : Failed { w with writer := .exited } k := by
  have hf : w.fatal = true := by
    cases h.ended with
    | fulfilling todo ht _ => rw [hw] at ht; cases ht
    | fatal _ hf => exact hf
  exact ⟨h.acked_lt, h.base_le, h.length, h.acked, h.unacked, h.kept, h.within, .fatal (Or.inr rfl) hf⟩

/-- After a failure the writer is not in the middle of a drain. -/
theorem Failed.not_writing (h : Failed w k) (drained : List PendingBatch) (rest : Bytes) :
    w.writer ≠ .writing drained rest := by
  intro hw
  cases h.ended with
  | fulfilling todo ht _ => rw [hw] at ht; cases ht
  | fatal hw' _ => rw [hw] at hw'; rcases hw' with hw' | hw' <;> cases hw'

end Steps

end OriginDB.Wal
