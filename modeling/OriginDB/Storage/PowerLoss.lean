import OriginDB.Storage.CrashSafety
/-!
# Power loss

A power loss may bring back any snapshot whose replacement is not on disk yet, the beginning of one
whose bytes are not, and any earlier incarnation of the log a truncation may fail to have replaced. In
`fsync` mode the log holds what is acknowledged whenever that is asked of it; the snapshot is never
synced by the code. `Durable` is what the kernel must have done on its own by then: written the new
snapshot back before it is renamed into place, and the rename before the log is truncated.
-/
namespace OriginDB

open JsonDoc ByteCodec Machine

namespace Wal

/-- How many batches have left the queue. -/
def taken (w : Wal) : Nat := w.batches.length - w.queue.length

def ackedCount (w : Wal) : Nat := w.promises.count (some true)

/-- How many batches may be acknowledged without another sync. -/
def safe (w : Wal) : Nat :=
  match w.writer with
  | .fulfilling _ _ => w.taken
  | _ => w.ackedCount

section Safe
variable {w w' : Wal} {k q : Nat} {l : Label}

theorem Sound.taken_eq (h : Sound w k q) : w.taken = q := by
  have hq := h.taken_le
  have hlen := congrArg List.length h.queue
  simp at hlen
  unfold taken
  omega

theorem Sound.ackedCount_eq (h : Sound w k q) : w.ackedCount = k := by
  rw [ackedCount, h.promises, List.count_append, List.count_replicate_self, List.count_replicate]
  simp

theorem Sound.le_safe (h : Sound w k q) : k ≤ w.safe := by
  have hkq := h.acked_le
  unfold safe
  split
  · rw [h.taken_eq]
    exact hkq
  · rw [h.ackedCount_eq]

theorem Sound.safe_le (h : Sound w k q) : w.safe ≤ q := by
  have hkq := h.acked_le
  unfold safe
  split
  · rw [h.taken_eq]
  · rw [h.ackedCount_eq]
    exact hkq

theorem safe_of_writing {drained : List PendingBatch} {rest : Bytes} (h : Sound w k q)
    (hw : w.writer = .writing drained rest) : w.safe = k := by
  simp only [safe, hw]
  exact h.ackedCount_eq

/-- What a step of the writer does to the disk while nothing fails. -/
inductive Disked (w w' : Wal) : Prop where
  | same (hi : w'.images = w.images) (hf : w'.file = w.file) (hs : w'.safe ≤ w.safe)
  | write (bs : Bytes) (hi : w'.images = grow w.images bs) (hf : w'.file = w.file ++ bs) (hs : w'.safe ≤ w.safe)
  | sync (hi : w'.images = [(w.file, [])]) (hf : w'.file = w.file) (hu : w.unwritten = [])
      (hs : w'.safe ≤ w.taken)

theorem disked_step (h : Sound w k q) (h' : ∃ k' q', Sound w' k' q') (hl : Server.byWriter l = true)
    (hfails : l.fails = false) (hstep : step .fsync w l = some w') : Disked w w' := by
  obtain ⟨k', q', h'⟩ := h'
  cases l with
  | append _ _ | drain | stopWriter | exit => cases hl
  | writeError => cases hfails
  | swap =>
    simp only [Wal.step] at hstep
    split at hstep
    · rename_i hw
      cases hstep
      refine .same rfl rfl ?_
      have hsafe : w.safe = w.ackedCount := by simp only [safe, hw.1]
      rw [hsafe]
      exact Nat.le_refl _
    · cases hstep
  | write n =>
    simp only [Wal.step] at hstep
    split at hstep
    · rename_i drained rest hw
      split at hstep
      · cases hstep
        refine .write _ rfl rfl ?_
        rw [safe_of_writing h hw]
        exact Nat.le_of_eq h.ackedCount_eq
      · cases hstep
    · cases hstep
  | sync ok =>
    cases ok with
    | false => cases hfails
    | true =>
      simp only [Wal.step] at hstep
      split at hstep
      · rename_i drained hw
        split at hstep
        · simp only [if_true] at hstep
          cases hstep
          exact .sync rfl rfl (by simp only [unwritten, hw]) (Nat.le_refl _)
        · cases hstep
      · cases hstep
  | fulfil =>
    simp only [Wal.step] at hstep
    split at hstep
    · rename_i p todo ok hw
      cases hstep
      refine .same rfl rfl ?_
      have hsafe : w.safe = w.taken := by simp only [safe, hw]
      rw [hsafe]
      exact Nat.le_refl _
    · cases hstep
  | endDrain =>
    simp only [Wal.step] at hstep
    split at hstep
    · rename_i ok hw
      have hsafe : w.safe = w.taken := by simp only [safe, hw]
      cases hstep
      refine .same rfl rfl ?_
      have hle := h'.safe_le
      rw [← h'.taken_eq] at hle
      rw [hsafe]
      exact hle
    · cases hstep

end Safe

end Wal

namespace Server

/-! ## What is on disk -/

/-- The first `r` batches are safe in this image of the log, which begins with change `b`, and so they
are with any snapshot. -/
structure ImageOk (s : Server) (m r b : Nat) (p : Bytes × Bytes) : Prop where
  le : b ≤ m
  within : p.1 ++ p.2 <+: kWalMagic ++ s.wal.span b m
  acked : s.logTo r <+: s.logTo b ++ readAll p.1
  snaps : ∀ f ∈ s.snaps, s.logTo b <+: s.logTo (upTo f)

/-- This snapshot is on disk, and holds the first changes. -/
structure SnapOk (env : Env) (db : Db) (s : Server) (m : Nat) (f : Option SnapFile) : Prop where
  loads : Loads env.toJsonLib (snapText f) (db.after (s.changes.take (upTo f)))
  le : upTo f ≤ m
  synced : ∀ g, f = some g → g.synced = true

structure Disk (env : Env) (db : Db) (s : Server) (m r : Nat) : Prop where
  snaps : ∀ f ∈ s.snaps, SnapOk env db s m f
  images : ∃ p older, s.wal.images = p :: older ∧ p.1 ++ p.2 = s.wal.file ∧ ImageOk s m r s.wal.base p ∧
    ∀ p' ∈ older, ∃ b, ImageOk s m r b p'

/-- The same snapshot, perhaps written back since. -/
def SameSnap (f g : Option SnapFile) : Prop := f = g ∨ ∃ h, g = some h ∧ f = some { h with synced := true }

theorem SameSnap.spec {f g : Option SnapFile} (h : SameSnap f g) : snapText f = snapText g ∧ upTo f = upTo g ∧
    ((∀ x, g = some x → x.synced = true) → ∀ x, f = some x → x.synced = true) := by
  rcases h with rfl | ⟨x, rfl, rfl⟩
  · exact ⟨rfl, rfl, id⟩
  · exact ⟨rfl, rfl, fun _ y hy => by cases hy; rfl⟩

/-- The snapshots a step can leave on disk. -/
theorem step_snaps {env : Env} {mode : SyncMode} {feed : Bool} {s s' : Server} {l : Label}
    (hstep : step env mode feed s l = some s') : (∀ f ∈ s'.snaps, ∃ g ∈ s.snaps, SameSnap f g) ∨
      (l = .rename true ∧ ∃ f, s.lock = .tmpWritten f ∧ s' = { s with snaps := some f :: s.snaps, lock := .renamed }) := by
  have hsame : s'.snaps = s.snaps → ∀ f ∈ s'.snaps, ∃ g ∈ s.snaps, SameSnap f g :=
    fun h f hf => ⟨f, h ▸ hf, Or.inl rfl⟩
  by_cases hl : l.ofCheckpoint = false
  · refine Or.inl (hsame ?_)
    rcases step_cases hl hstep with ⟨e', lock, hq⟩ | ⟨c, ts, e', lock, ha⟩ | ⟨wl, w, -, -, -, rfl⟩ | ⟨-, -, rfl⟩
    · rw [hq.eq]
    · rw [ha.eq]
    · rfl
    · unfold drainLog
      split <;> rfl
  · cases l with
    | serialise =>
      simp only [Server.step] at hstep
      split at hstep
      · split at hstep
        · cases hstep
        · obtain ⟨text, -, rfl⟩ := Option.map_eq_some_iff.1 hstep
          exact Or.inl (hsame rfl)
      · cases hstep
    | truncate opened =>
      simp only [Server.step] at hstep
      split at hstep
      · obtain ⟨w, -, rfl⟩ := Option.map_eq_some_iff.1 hstep
        exact Or.inl (hsame rfl)
      · cases hstep
    | writeTmp n | writeTmpFails | drained | reopen opened n =>
      simp only [Server.step] at hstep
      repeat' split at hstep
      all_goals first
        | (cases hstep; done)
        | (cases hstep; exact Or.inl (hsame rfl))
    | drain =>
      simp only [Server.step] at hstep
      split at hstep
      · cases hstep
        refine Or.inl (hsame ?_)
        unfold drainLog
        split <;> rfl
      · cases hstep
    | rename ok =>
      simp only [Server.step] at hstep
      split at hstep
      · rename_i f hlock
        split at hstep
        · rename_i hok
          cases hstep
          exact Or.inr ⟨by rw [hok], f, hlock, rfl⟩
        · cases hstep
          exact Or.inl (hsame rfl)
      · cases hstep
    | syncSnap =>
      simp only [Server.step] at hstep
      split at hstep
      · cases hstep
        exact Or.inl (hsame rfl)
      · split at hstep
        · rename_i f older hsnaps
          cases hstep
          refine Or.inl fun g hg => ?_
          rcases List.mem_cons.1 hg with rfl | hg
          · exact ⟨some f, by simp [hsnaps], Or.inr ⟨f, rfl, rfl⟩⟩
          · exact ⟨g, by simp [hsnaps, hg], Or.inl rfl⟩
        · cases hstep
    | syncDir =>
      cases hstep
      exact Or.inl fun f hf => ⟨f, List.mem_of_mem_take hf, Or.inl rfl⟩
    | _ => exact absurd rfl hl

section Disk
variable {env : Env} {db : Db} {s s' : Server} {m m' r r' b k q : Nat} {p : Bytes × Bytes}

theorem ImageOk.frame {bs : List (List WALEntry)} (h : ImageOk s m r b p) (hm : m ≤ s.wal.batches.length)
    (hr : r ≤ s.wal.batches.length) (hsl : ∀ f ∈ s.snaps, upTo f ≤ m) (hb : s'.wal.batches = s.wal.batches ++ bs)
    (hs : ∀ f ∈ s'.snaps, ∃ g ∈ s.snaps, SameSnap f g) (hmm : m ≤ m') (hrr : r' ≤ r) : ImageOk s' m' r' b p := by
  have hle := h.le
  refine ⟨Nat.le_trans hle hmm, ?_, ?_, fun f hf => ?_⟩
  · have hspan : s'.wal.span b m = s.wal.span b m := by
      rw [Wal.span, hb, List.take_append_of_le_length hm, Wal.span]
    refine h.within.trans ((List.prefix_append_right_inj _).2 ?_)
    rw [← hspan]
    exact Wal.span_mono hmm
  · rw [logTo_append hb (by omega), logTo_append hb (by omega)]
    exact (s.logTo_mono hrr).trans h.acked
  · obtain ⟨g, hg, hfg⟩ := hs f hf
    have hup := hsl g hg
    rw [hfg.spec.2.1, logTo_append hb (by omega), logTo_append hb (by omega)]
    exact h.snaps g hg

/-- Whatever does not write to the disk leaves it in order. -/
theorem Disk.frame {cs : List Change} {bs : List (List WALEntry)} (h : Disk env db s m r)
    (hlen : s.changes.length = s.wal.batches.length) (hm : m ≤ s.changes.length) (hr : r ≤ s.wal.batches.length)
    (hc : s'.changes = s.changes ++ cs) (hb : s'.wal.batches = s.wal.batches ++ bs) (hb0 : s'.wal.base = s.wal.base)
    (hi : s'.wal.images = s.wal.images) (hf : s'.wal.file = s.wal.file)
    (hs : ∀ f ∈ s'.snaps, ∃ g ∈ s.snaps, SameSnap f g) (hmm : m ≤ m') (hrr : r' ≤ r) : Disk env db s' m' r' := by
  have hsl : ∀ f ∈ s.snaps, upTo f ≤ m := fun f hf => (h.snaps f hf).le
  obtain ⟨p, older, himg, hfile, hhead, hold⟩ := h.images
  refine ⟨fun f hf => ?_, p, older, hi.trans himg, hfile.trans hf.symm, ?_, fun p' hp' => ?_⟩
  · obtain ⟨g, hg, hfg⟩ := hs f hf
    obtain ⟨htext, hup, hsync⟩ := hfg.spec
    have hok := h.snaps g hg
    have hle := hok.le
    refine ⟨?_, by omega, hsync hok.synced⟩
    rw [htext, hup, hc, List.take_append_of_le_length (by omega)]
    exact hok.loads
  · rw [hb0]
    exact hhead.frame (by omega) hr hsl hb hs hmm hrr
  · obtain ⟨b, hb'⟩ := hold p' hp'
    exact ⟨b, hb'.frame (by omega) hr hsl hb hs hmm hrr⟩

theorem Disk.same (h : Disk env db s m r) (hlen : s.changes.length = s.wal.batches.length) (hm : m ≤ s.changes.length)
    (hr : r ≤ s.wal.batches.length) (hc : s'.changes = s.changes) (hb : s'.wal.batches = s.wal.batches)
    (hb0 : s'.wal.base = s.wal.base) (hi : s'.wal.images = s.wal.images) (hf : s'.wal.file = s.wal.file)
    (hs : ∀ f ∈ s'.snaps, ∃ g ∈ s.snaps, SameSnap f g) (hrr : r' ≤ r) : Disk env db s' m r' :=
  h.frame hlen hm hr (hc.trans (List.append_nil _).symm) (hb.trans (List.append_nil _).symm) hb0 hi hf hs
    (Nat.le_refl m) hrr

/-- Bytes that reach the file reach its newest image. -/
theorem Disk.write {bs : Bytes} (h : Disk env db s m r) (hlen : s.changes.length = s.wal.batches.length)
    (hm : m ≤ s.changes.length) (hr : r ≤ s.wal.batches.length) (hc : s'.changes = s.changes)
    (hb : s'.wal.batches = s.wal.batches) (hb0 : s'.wal.base = s.wal.base) (hs : s'.snaps = s.snaps)
    (hi : s'.wal.images = Wal.grow s.wal.images bs) (hf : s'.wal.file = s.wal.file ++ bs)
    (hw : s'.wal.file <+: kWalMagic ++ s'.wal.span s'.wal.base m) (hrr : r' ≤ r) : Disk env db s' m r' := by
  have hsl : ∀ f ∈ s.snaps, upTo f ≤ m := fun f hf => (h.snaps f hf).le
  have hsame : ∀ f ∈ s'.snaps, ∃ g ∈ s.snaps, SameSnap f g := fun f hf => ⟨f, hs ▸ hf, Or.inl rfl⟩
  obtain ⟨p, older, himg, hfile, hhead, hold⟩ := h.images
  have hb' : s'.wal.batches = s.wal.batches ++ [] := by simpa using hb
  have hhead' := hhead.frame (by omega) hr hsl hb' hsame (Nat.le_refl m) hrr
  rw [← hb0] at hhead'
  have hfile' : p.1 ++ (p.2 ++ bs) = s'.wal.file := by rw [← List.append_assoc, hfile, hf]
  refine ⟨fun f hf => ?_, (p.1, p.2 ++ bs), older, ?_, hfile', ⟨hhead'.le, ?_, hhead'.acked, hhead'.snaps⟩, fun p' hp' => ?_⟩
  · have hok := h.snaps f (hs ▸ hf)
    exact ⟨hc ▸ hok.loads, hok.le, hok.synced⟩
  · rw [hi, himg]
    rfl
  · show p.1 ++ (p.2 ++ bs) <+: _
    rw [hfile']
    exact hw
  · obtain ⟨b, hb''⟩ := hold p' hp'
    exact ⟨b, hb''.frame (by omega) hr hsl hb' hsame (Nat.le_refl m) hrr⟩

/-- A sync makes the file the only image of the log. -/
theorem Disk.sync (h : Disk env db s m r) (hc : s'.changes = s.changes) (hb : s'.wal.batches = s.wal.batches)
    (hb0 : s'.wal.base = s.wal.base) (hs : s'.snaps = s.snaps) (hi : s'.wal.images = [(s'.wal.file, [])])
    (hhold : Holds s' r' m s'.wal.base s'.wal.file) : Disk env db s' m r' := by
  obtain ⟨p, older, -, -, hhead, -⟩ := h.images
  have hto : ∀ j, s'.logTo j = s.logTo j := fun j => by rw [logTo, hb, logTo]
  refine ⟨fun f hf => ?_, (s'.wal.file, []), [], hi, List.append_nil _, ⟨hhold.le, ?_, hhold.kept, fun f hf => ?_⟩, ?_⟩
  · have hok := h.snaps f (hs ▸ hf)
    exact ⟨hc ▸ hok.loads, hok.le, hok.synced⟩
  · rw [List.append_nil]
    exact hhold.within
  · rw [hto, hto, hb0]
    exact hhead.snaps f (hs ▸ hf)
  · rintro p' ⟨⟩

/-- A new snapshot, written back before it is put in place. -/
theorem Disk.rename {f : SnapFile} (h : Disk env db s s.changes.length r) (hsync : f.synced = true)
    (htaken : Taken env db s f.text f.upTo) :
    Disk env db { s with snaps := some f :: s.snaps, lock := .renamed } s.changes.length r := by
  have himage : ∀ {b : Nat} {p : Bytes × Bytes}, ImageOk s s.changes.length r b p →
      ImageOk { s with snaps := some f :: s.snaps, lock := .renamed } s.changes.length r b p := by
    intro b p hp
    refine ⟨hp.le, hp.within, hp.acked, fun g hg => ?_⟩
    rcases List.mem_cons.1 hg with rfl | hg
    · show s.logTo b <+: s.logTo f.upTo
      rw [htaken.all]
      exact s.logTo_mono hp.le
    · exact hp.snaps g hg
  obtain ⟨p, older, himg, hfile, hhead, hold⟩ := h.images
  refine ⟨fun g hg => ?_, p, older, himg, hfile, himage hhead, fun p' hp' => ?_⟩
  · rcases List.mem_cons.1 hg with rfl | hg
    · refine ⟨?_, Nat.le_of_eq htaken.all, fun x hx => by cases hx; exact hsync⟩
      show Loads env.toJsonLib (some f.text) (db.after (s.changes.take f.upTo))
      rw [htaken.all, List.take_length]
      exact htaken.loads
    · have hok := h.snaps g hg
      exact ⟨hok.loads, hok.le, hok.synced⟩
  · obtain ⟨b, hb⟩ := hold p' hp'
    exact ⟨b, himage hb⟩

/-- A truncation that only the snapshot in place can follow. -/
theorem Disk.emptied (h : Disk env db s s.changes.length r) (hlen : s.changes.length = s.wal.batches.length)
    (hr : r ≤ s.changes.length) (hcov : s.Covered) (hone : s.snaps.length ≤ 1) :
    Disk env db { s with wal := s.wal.emptied, lock := .truncated } s.changes.length r := by
  obtain ⟨p, older, himg, hfile, hhead, hold⟩ := h.images
  have hkeep : ∀ {b : Nat} {p : Bytes × Bytes}, ImageOk s s.changes.length r b p →
      ImageOk { s with wal := s.wal.emptied, lock := .truncated } s.changes.length r b p :=
    fun hp => ⟨hp.le, hp.within, hp.acked, hp.snaps⟩
  refine ⟨fun f hf => ⟨(h.snaps f hf).loads, (h.snaps f hf).le, (h.snaps f hf).synced⟩, ([], []), s.wal.images, rfl, rfl,
    ⟨Nat.le_of_eq hlen.symm, List.nil_prefix, ?_, fun f hf => ?_⟩, fun p' hp' => ?_⟩
  · show s.logTo r <+: s.logTo s.wal.batches.length ++ readAll []
    rw [readAll_nil, List.append_nil, ← hlen]
    exact s.logTo_mono hr
  · have hhead : s.snapFile = f := by
      unfold snapFile
      match hs : s.snaps, hone with
      | [g], _ =>
        have hfg : f = g := by
          have hf' : f ∈ s.snaps := hf
          rw [hs] at hf'
          exact List.mem_singleton.1 hf'
        rw [hfg]
        rfl
      | [], _ =>
        have hf' : f ∈ s.snaps := hf
        rw [hs] at hf'
        cases hf'
    show s.logTo s.wal.batches.length <+: s.logTo (upTo f)
    rw [← hlen, ← hcov, hhead]
  · rw [himg] at hp'
    rcases List.mem_cons.1 hp' with rfl | hp'
    · exact ⟨_, hkeep hhead⟩
    · obtain ⟨b, hb⟩ := hold p' hp'
      exact ⟨b, hkeep hb⟩

end Disk

/-! ## Runs -/

/-- The kernel has written the snapshot back before it is put in place, and the rename before the log
goes. -/
def Synced (s : Server) : Label → Prop
  | .rename ok =>
    match s.lock with
    | .tmpWritten f => ok = true → f.synced = true
    | _ => True
  | .truncate opened => opened = true → s.snaps.length ≤ 1
  | _ => True

instance (s : Server) : ∀ l : Label, Decidable (Synced s l)
  | .rename ok =>
    match h : s.lock with
    | .tmpWritten f => decidable_of_iff (ok = true → f.synced = true) (by simp [Synced, h])
    | .free | .ddl _ _ | .serialised _ _ | .renamed | .draining _ | .drained | .truncated => isTrue (by simp [Synced, h])
  | .truncate opened => inferInstanceAs (Decidable (opened = true → s.snaps.length ≤ 1))
  | .commit _ _ _ | .createTable _ _ | .dropTable _ _ | .ddlDone | .writer _ | .serialise | .writeTmp _ | .writeTmpFails
  | .drain | .drained | .reopen _ _ | .flush | .syncSnap | .syncDir => isTrue trivial

def Durable (env : Env) (feed : Bool) (s : Server) (l : Label) : Prop := Ok env feed true s l ∧ Synced s l

instance (env : Env) (feed : Bool) (s : Server) (l : Label) : Decidable (Durable env feed s l) :=
  inferInstanceAs (Decidable (_ ∧ _))

/-- The disk is in order, whether the log has failed or not. -/
def Guarded (env : Env) (db : Db) (s : Server) : Prop :=
  (∃ k q, Good env true db s k q ∧ Disk env db s s.changes.length s.wal.safe) ∨
    ∃ k m, Bad env true db s k m ∧ Disk env db s m k

section Guarded
variable {env : Env} {feed : Bool} {db : Db} {s s' s₀ : Server} {l : Label} {ls : List Label} {k m q : Nat}

theorem Good.safe_le (h : Good env true db s k q) : s.wal.safe ≤ s.wal.batches.length :=
  Nat.le_trans h.sound.safe_le h.sound.taken_le

theorem images_of_fails {w w' : Wal} {wl : Wal.Label} (hf : wl.fails = true) (hstep : w.step .fsync wl = some w') :
    w'.images = w.images := by
  cases wl with
  | writeError =>
    simp only [Wal.step] at hstep
    repeat' split at hstep
    all_goals first
      | (cases hstep; done)
      | (cases hstep; rfl)
  | sync ok =>
    cases ok with
    | true => cases hf
    | false =>
      simp only [Wal.step, Bool.false_eq_true, if_false] at hstep
      repeat' split at hstep
      all_goals first
        | (cases hstep; done)
        | (cases hstep; rfl)
  | _ => cases hf

theorem failed_of_fails {w w' : Wal} {wl : Wal.Label} (hf : wl.fails = true) (hstep : w.step .fsync wl = some w') :
    w'.failed = true := by
  cases wl with
  | writeError =>
    simp only [Wal.step] at hstep
    repeat' split at hstep
    all_goals first
      | (cases hstep; done)
      | (cases hstep; simp [Wal.failed])
  | sync ok =>
    cases ok with
    | true => cases hf
    | false =>
      simp only [Wal.step, Bool.false_eq_true, if_false] at hstep
      repeat' split at hstep
      all_goals first
        | (cases hstep; done)
        | (cases hstep; simp [Wal.failed])
  | _ => cases hf

theorem safe_enqueue (w : Wal) (es : List WALEntry) : (w.enqueue es).safe = w.safe := by
  have ht : (w.enqueue es).taken = w.taken := by simp [Wal.taken, Wal.enqueue]
  have ha : (w.enqueue es).ackedCount = w.ackedCount := by simp [Wal.ackedCount, Wal.enqueue]
  unfold Wal.safe
  rw [ht, ha]
  rfl

theorem Disk.appended (h : Disk env db s s.changes.length s.wal.safe) (hg : Good env true db s k q) {w : Wal}
    {c : Change} {b : List WALEntry} (hc : s'.changes = s.changes ++ [c]) (hw : s'.wal = w)
    (hb : w.batches = s.wal.batches ++ [b]) (hb0 : w.base = s.wal.base) (hi : w.images = s.wal.images)
    (hf : w.file = s.wal.file) (hsafe : w.safe = s.wal.safe) (hs : s'.snaps = s.snaps) :
    Disk env db s' s'.changes.length s'.wal.safe := by
  subst hw
  rw [hsafe]
  exact h.frame hg.length (Nat.le_refl _) hg.safe_le hc hb hb0 hi hf (fun f hf => ⟨f, hs ▸ hf, Or.inl rfl⟩)
    (by rw [hc]; simp) (Nat.le_refl _)

theorem Good.disk_writer {wl : Wal.Label} {w : Wal} {k' q' : Nat} (hg : Good env true db s k q)
    (hd : Disk env db s s.changes.length s.wal.safe) (hby : byWriter wl = true) (hno : wl.fails = false)
    (hstep : s.wal.step .fsync wl = some w) (hg' : Good env true db { s with wal := w } k' q') :
    Disk env db { s with wal := w } s.changes.length w.safe := by
  obtain ⟨hb, hb0, ho, -⟩ := writer_frame hby hstep
  cases Wal.disked_step hg.sound ⟨k', q', hg'.sound⟩ hby hno hstep with
  | same hi hf hs =>
    exact hd.same hg.length (Nat.le_refl _) hg.safe_le rfl hb hb0 hi hf (fun f hf => ⟨f, hf, Or.inl rfl⟩) hs
  | write bs hi hf hs =>
    exact hd.write hg.length (Nat.le_refl _) hg.safe_le rfl hb hb0 rfl hi hf hg'.holds.within hs
  | sync hi hf hu hs =>
    refine hd.sync rfl hb hb0 rfl (by rw [hi, ← hf]) ⟨hg'.holds.le, hg'.holds.within, ?_⟩
    show Server.logTo { s with wal := w } w.safe <+: _
    have hto : ∀ j, ({ s with wal := w } : Server).logTo j = s.logTo j := fun j => by rw [logTo, hb, logTo]
    rw [hg.sound.taken_eq] at hs
    rw [hto, hto]
    show s.logTo w.safe <+: s.logTo w.base ++ readAll w.file
    rw [hb0, hf, hg.written hu]
    exact s.logTo_mono hs

theorem Good.disk_reopen {n k' q' : Nat} (hg : Good env true db s k q)
    (hd : Disk env db s s.changes.length s.wal.safe)
    (hg' : Good env true db { s with wal := s.wal.reopen true n, lock := .free } k' q') :
    Disk env db { s with wal := s.wal.reopen true n, lock := .free } s.changes.length (s.wal.reopen true n).safe := by
  by_cases hfile : s.wal.file = []
  · have hre : s.wal.reopen true n = { s.wal with
        fdOpen := true, file := kWalMagic.take n, images := Wal.grow s.wal.images (kWalMagic.take n),
        origin := kWalMagic.take n } := by simp [Wal.reopen, hfile]
    rw [hre] at hg' ⊢
    exact hd.write hg.length (Nat.le_refl _) hg.safe_le rfl rfl rfl rfl rfl (by rw [hfile]; rfl) hg'.holds.within
      (Nat.le_refl _)
  · have hre : s.wal.reopen true n = { s.wal with fdOpen := true } := by simp [Wal.reopen, hfile]
    rw [hre]
    exact hd.same hg.length (Nat.le_refl _) hg.safe_le rfl rfl rfl rfl rfl (fun f hf => ⟨f, hf, Or.inl rfl⟩)
      (Nat.le_refl _)

/-- **A step keeps the disk in order** while the log has not failed. -/
theorem Good.disk_step {k' q' : Nat} (hg : Good env true db s k q)
    (hd : Disk env db s s.changes.length s.wal.safe) (hok : Durable env feed s l)
    (hstep : Server.step env .fsync feed s l = some s') (hg' : Good env true db s' k' q') :
    Disk env db s' s'.changes.length s'.wal.safe := by
  have hsame : s'.wal = s.wal → s'.changes = s.changes → (∀ f ∈ s'.snaps, ∃ g ∈ s.snaps, SameSnap f g) →
      Disk env db s' s'.changes.length s'.wal.safe := by
    intro hw hc hs
    rw [hw, hc]
    exact hd.same hg.length (Nat.le_refl _) hg.safe_le hc (by rw [hw]) (by rw [hw]) (by rw [hw]) (by rw [hw]) hs
      (Nat.le_refl _)
  rcases step_snaps hstep with hsnaps | ⟨rfl, f, hlock, rfl⟩
  · by_cases hl : l.ofCheckpoint = false
    · rcases step_cases hl hstep with ⟨e', lock, hq⟩ | ⟨c, ts, e', lock, ha⟩ | ⟨wl, w, rfl, hby, hw, rfl⟩ | ⟨rfl, -, rfl⟩
      · exact hsame (by rw [hq.eq]) (by rw [hq.eq]) hsnaps
      · rw [ha.eq]
        have hw := Wal.appendBatchAsync_eq hg.sound.fatal (batchOf env feed s l) ts
        exact hd.appended hg rfl hw rfl rfl rfl rfl
          (safe_enqueue s.wal (Wal.assign s.wal.nextSequence ts (batchOf env feed s l))) rfl
      · have hno : wl.fails = false := by
          by_contra hf
          have hfailed := failed_of_fails (by simpa using hf) hw
          rw [hg'.sound.not_failed] at hfailed
          cases hfailed
        exact hg.disk_writer hd hby hno hw hg'
      · rw [hg.drainLog_eq]
        exact hd.appended hg rfl rfl rfl rfl rfl rfl (safe_enqueue _ _) rfl
    · rcases checkpoint_cases (by simpa using hl) hstep with ⟨hw, hc⟩ | ⟨rfl, -, rfl⟩ |
        ⟨opened, w, rfl, hlock, hw, rfl⟩ | ⟨opened, n, rfl, -, rfl⟩
      · exact hsame hw hc hsnaps
      · rw [hg.drainLog_eq]
        exact hd.appended hg rfl rfl rfl rfl rfl rfl (safe_enqueue _ _) rfl
      · have hphase := hg.phase
        simp only [Phase, hlock] at hphase
        have hcase := Wal.truncateFile_eq hw
        subst hcase
        cases opened with
        | true => exact hd.emptied hg.length (by rw [hg.length]; exact hg.safe_le) hphase.2.1 (hok.2 rfl)
        | false => exact hsame rfl rfl hsnaps
      · obtain ⟨rfl, -⟩ := hok.1.step
        exact hg.disk_reopen hd hg'
  · have hphase := hg.phase
    simp only [Phase, hlock] at hphase
    have hsync := hok.2
    simp only [Synced, hlock, forall_const] at hsync
    exact hd.rename hsync hphase.2.2

theorem Guarded.step (h : Guarded env db s) (hok : Durable env feed s l)
    (hstep : Server.step env .fsync feed s l = some s') : Guarded env db s' := by
  rcases h with ⟨k, q, hg, hd⟩ | ⟨k, m, hb, hd⟩
  · rcases hg.step hok.1 hstep with ⟨k', q', -, hg'⟩ | ⟨wl, rfl, hf, hb, hfile⟩
    · exact Or.inl ⟨k', q', hg', hg.disk_step hd hok hstep hg'⟩
    · obtain ⟨hby, w, hw, rfl⟩ := step_writer hstep
      obtain ⟨hbs, hb0, -⟩ := writer_frame hby hw
      refine Or.inr ⟨k, _, hb, ?_⟩
      exact hd.same hg.length (Nat.le_refl _) hg.safe_le rfl hbs hb0 (images_of_fails hf hw) hfile
        (fun f hf => ⟨f, hf, Or.inl rfl⟩) hg.sound.le_safe
  · obtain ⟨cs, bs, hs, hb'⟩ := hb.step hok.1 hstep
    refine Or.inr ⟨k, m, hb', ?_⟩
    rcases step_snaps hstep with hsnaps | ⟨rfl, -⟩
    · exact hd.frame hb.length hb.le_length (Nat.le_of_lt hb.failed.acked_lt) hs.changes hs.batches hs.base hs.images
        hs.file hsnaps (Nat.le_refl _) (Nat.le_refl _)
    · have hfailed := hok.1.step rfl
      rw [hb.failed.failed] at hfailed
      cases hfailed

theorem guarded_start {snap : Option Bytes} (h : start env snap = some s) : Guarded env (view s.engine.tables) s := by
  have hg : Good env true (view s.engine.tables) s 0 0 := good_start h
  obtain ⟨e, he, rfl⟩ := Option.map_eq_some_iff.1 h
  refine Or.inl ⟨0, 0, hg, fun f hf => ?_, ([], kWalMagic), [], rfl, rfl, ⟨Nat.le_refl _, List.prefix_append _ _, ?_, ?_⟩, ?_⟩
  · have hf : f = snap.map fun text => (⟨text, true, 0⟩ : SnapFile) := List.mem_singleton.1 hf
    subst hf
    refine ⟨hg.resumes.loads, hg.resumes.upTo_le, fun g hgf => ?_⟩
    obtain ⟨text, -, rfl⟩ := Option.map_eq_some_iff.1 hgf
    rfl
  · exact List.nil_prefix
  · exact fun f _ => List.nil_prefix
  · rintro p ⟨⟩

theorem guarded_run (h0 : Guarded env db s₀) (hok : Allowed (Server.step env .fsync feed) (Durable env feed) s₀ ls)
    (hrun : run (Server.step env .fsync feed) s₀ ls = some s) : Guarded env db s :=
  run_invariant (Guarded env db) (fun _ _ _ h hl hstep => h.step hl hstep) h0 hok hrun

end Guarded

/-! ## What survives -/

/-- A `snapshot.json` a power loss can leave: one whose replacement may not be on disk, and of one whose
bytes are not on disk, any beginning. -/
def SnapSurvives (s : Server) (snap : Option Bytes) : Prop :=
  ∃ f ∈ s.snaps, snap = snapText f ∨ ∃ g text, f = some g ∧ g.synced = false ∧ text <+: g.text ∧ snap = some text

/-- A `wal.log` a power loss can leave: of some incarnation the bytes on disk, and some of those since. -/
def FileSurvives (s : Server) (file : Bytes) : Prop :=
  ∃ p ∈ s.wal.images, p.1 <+: file ∧ file <+: p.1 ++ p.2

section Loss
variable {env : Env} {db : Db} {s : Server} {k m r b : Nat} {p : Bytes × Bytes} {file : Bytes}

theorem ImageOk.holds (h : ImageOk s m r b p) (hrec : s.wal.Recorded) (h1 : p.1 <+: file) (h2 : file <+: p.1 ++ p.2) :
    Holds s r m b file := by
  have hwithin := h2.trans h.within
  refine ⟨h.le, hwithin, h.acked.trans ((List.prefix_append_right_inj _).2 ?_)⟩
  have hes := Wal.recorded_span hrec b m
  rw [readAll_of_within hes hwithin, readAll_of_within hes (h1.trans hwithin)]
  exact List.take_prefix_take_left (wholeRecords_mono _ (Nat.sub_le_sub_right h1.length_le 8))

/-- Any snapshot and any log that survive together. -/
theorem Disk.recovers (h : Disk env db s m r) (hrec : s.wal.Recorded)
    (hm : Mirrors env.toJsonLib true db s.changes s.wal.batches m) {snap : Option Bytes} (hs : s.SnapSurvives snap)
    (hf : s.FileSurvives file) (clock : Nat → UInt64) :
    ∃ e, recover env.toJsonLib clock snap file = some e ∧
      ∀ l, ∃ es, s.logTo r <+: es ∧ es <+: s.logTo m ∧ (view e.tables).cell l = cellAfter env.toJsonLib db es l := by
  obtain ⟨f, hfm, hsnap⟩ := hs
  obtain ⟨p, hp, h1, h2⟩ := hf
  have hok := h.snaps f hfm
  have htext : snap = snapText f := by
    rcases hsnap with hsnap | ⟨g, text, rfl, hg, -⟩
    · exact hsnap
    · rw [hok.synced g rfl] at hg
      cases hg
  obtain ⟨b, himg⟩ : ∃ b, ImageOk s m r b p := by
    obtain ⟨p₀, older, hi, -, hhead, hold⟩ := h.images
    rw [hi] at hp
    rcases List.mem_cons.1 hp with rfl | hp
    · exact ⟨_, hhead⟩
    · exact hold p hp
  have hhold := himg.holds hrec h1 h2
  have hreach := hhold.reaches hrec
  obtain ⟨e, he, hcells, hover⟩ := cell_recover clock (htext ▸ hok.loads) (hm.logged _ hok.le)
    (hm.fires rfl) (s.logTo_mono hok.le) hreach (himg.snaps f hfm)
  refine ⟨e, he, fun l => ?_⟩
  rcases List.prefix_or_prefix_of_prefix (s.logTo_mono hok.le) hreach with hle | hle
  · exact ⟨_, hhold.kept, hreach, hover hle l⟩
  · -- the snapshot is ahead of the log, and every key is where one of the two has it
    rcases hcells l with hc | hc
    · exact ⟨_, hhold.kept.trans hle, s.logTo_mono hok.le, hc⟩
    · exact ⟨_, hhold.kept, hreach, hc⟩

end Loss

/-- **Acknowledged commits survive a power loss** in `fsync` mode, if every snapshot is on disk before it
is put in place, and its name before the log is truncated: then, whatever survives, each table and each
key is as some prefix of the log has it that holds every acknowledged entry. -/
theorem power_loss (env : Env) (feed : Bool) (snap₀ : Option Bytes) (s₀ s : Server) (ls : List Label)
    (clock : Nat → UInt64) (h0 : start env snap₀ = some s₀)
    (hok : Allowed (step env .fsync feed) (Durable env feed) s₀ ls) (hrun : run (step env .fsync feed) s₀ ls = some s)
    (snap : Option Bytes) (file : Bytes) (hs : s.SnapSurvives snap) (hf : s.FileSurvives file) :
    ∃ e, recover env.toJsonLib clock snap file = some e ∧
      ∀ l : Loc, ∃ es, s.wal.ackedEntries <+: es ∧ es <+: s.wal.batches.flatten ∧
        (view e.tables).cell l = cellAfter env.toJsonLib (view s₀.engine.tables) es l := by
  have hall : ∀ m, s.logTo m <+: s.wal.batches.flatten := fun m => by
    have h := s.logTo_mono (Nat.le_max_left m s.wal.batches.length)
    rwa [show s.logTo (max m s.wal.batches.length) = s.wal.batches.flatten by
      rw [logTo, List.take_of_length_le (Nat.le_max_right _ _)]] at h
  rcases guarded_run (guarded_start h0) hok hrun with ⟨k, q, hg, hd⟩ | ⟨k, m, hb, hd⟩
  · obtain ⟨e, he, hcells⟩ := hd.recovers hg.recorded hg.mirrors hs hf clock
    refine ⟨e, he, fun l => ?_⟩
    obtain ⟨es, h1, h2, hc⟩ := hcells l
    rw [hg.sound.inv.ackedEntries_eq]
    exact ⟨es, (s.logTo_mono hg.sound.le_safe).trans h1, h2.trans (hall _), hc⟩
  · obtain ⟨e, he, hcells⟩ := hd.recovers hb.recorded hb.mirrors hs hf clock
    refine ⟨e, he, fun l => ?_⟩
    obtain ⟨es, h1, h2, hc⟩ := hcells l
    rw [hb.failed.inv.ackedEntries_eq]
    exact ⟨es, h1, h2.trans (hall _), hc⟩

/-- `k` is inserted and acknowledged; a checkpoint takes it, with the kernel writing snapshot and rename
back in time, and has just truncated the log. -/
def syncedRun : List Label :=
  createdT ++ [commitT [(.insert, "k")]] ++ ackOne 52 ++
    [.serialise, .writeTmp 200, .syncSnap, .rename true, .syncDir, .drain] ++ ackOne 0 ++ [.drained, .truncate true]

theorem power_loss_syncedRun : ∃ s e, run (step tEnv .fsync false) tStart syncedRun = some s ∧
    s.wal.promises = [some true, some true, some true] ∧ recover tEnv.toJsonLib (fun _ => 0) (snapText s.snapFile) [] = some e ∧
    ∀ l : Loc, ∃ es, s.wal.ackedEntries <+: es ∧ es <+: s.wal.batches.flatten ∧
      (view e.tables).cell l = cellAfter tEnv.toJsonLib (view tStart.engine.tables) es l := by
  have h : ((run (step tEnv .fsync false) tStart syncedRun).map fun s => (s.wal.promises, decide (s.snapFile ∈ s.snaps),
      decide ((([] : Bytes), ([] : Bytes)) ∈ s.wal.images))) = some ([some true, some true, some true], true, true) := by
    decide +kernel
  obtain ⟨s, hrun, h⟩ := Option.map_eq_some_iff.1 h
  simp only [Prod.mk.injEq, decide_eq_true_eq] at h
  obtain ⟨hp, hsnap, himg⟩ := h
  obtain ⟨e, he, hcells⟩ := power_loss tEnv false none tStart s syncedRun (fun _ => 0) rfl (by decide +kernel) hrun
    (snapText s.snapFile) [] ⟨_, hsnap, Or.inl rfl⟩ ⟨_, himg, List.nil_prefix, List.nil_prefix⟩
  exact ⟨s, e, hrun, hp, he, hcells⟩

/-- The same as the code does it. -/
def unsyncedRun : List Label :=
  createdT ++ [commitT [(.insert, "k")]] ++ ackOne 52 ++
    [.serialise, .writeTmp 200, .rename true, .drain] ++ ackOne 0 ++ [.drained, .truncate true]

/-- A power loss leaves an empty snapshot and an empty log, and the acknowledged commit is gone. -/
theorem power_loss_unsyncedRun : ∃ s e, run (step tEnv .fsync false) tStart unsyncedRun = some s ∧
    start tEnv none = some tStart ∧ Allowed (step tEnv .fsync false) (Ok tEnv false true) tStart unsyncedRun ∧
    s.wal.promises = [some true, some true, some true] ∧ s.SnapSurvives (some []) ∧ s.FileSurvives [] ∧
    recover tEnv.toJsonLib (fun _ => 0) (some []) [] = some e ∧
    ¬ ∀ l : Loc, ∃ es, s.wal.ackedEntries <+: es ∧ es <+: s.wal.batches.flatten ∧
      (view e.tables).cell l = cellAfter tEnv.toJsonLib (view tStart.engine.tables) es l := by
  have h : ((run (step tEnv .fsync false) tStart unsyncedRun).map fun s => (s.wal.promises,
      s.snaps.any (fun f => f.any fun g => !g.synced), decide ((([] : Bytes), ([] : Bytes)) ∈ s.wal.images),
      decide (s.wal.ackedEntries = s.wal.batches.flatten),
      (cellAfter tEnv.toJsonLib (view tStart.engine.tables) s.wal.batches.flatten (str "t", some (str "k"))).isRow)) =
      some ([some true, some true, some true], true, true, true, true) := by decide +kernel
  obtain ⟨s, hrun, h⟩ := Option.map_eq_some_iff.1 h
  simp only [Prod.mk.injEq, decide_eq_true_eq] at h
  obtain ⟨hp, hsnap, himg, hacked, hrow⟩ := h
  refine ⟨s, {}, hrun, rfl, by decide +kernel, hp, ?_, ⟨_, himg, List.nil_prefix, List.nil_prefix⟩, rfl, ?_⟩
  · obtain ⟨f, hf, hg⟩ := List.any_eq_true.1 hsnap
    obtain ⟨g, rfl, hg⟩ := (Option.any_eq_true _ _).1 hg
    exact ⟨_, hf, Or.inr ⟨g, [], rfl, by simpa using hg, List.nil_prefix, rfl⟩⟩
  · intro hcells
    obtain ⟨es, h1, h2, hc⟩ := hcells (str "t", some (str "k"))
    rw [hacked] at h1
    have hes : es = s.wal.batches.flatten := h2.eq_of_length_le h1.length_le
    rw [hes] at hc
    rw [← hc] at hrow
    exact absurd hrow (by decide)

end Server

end OriginDB
