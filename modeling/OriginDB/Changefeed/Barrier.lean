import Mathlib.Data.List.Nodup
import OriginDB.Lib.Lists
import OriginDB.Lib.Machine
/-!
# `RunBatch` as a barrier (`changefeed_engine.cpp:16-85`)

`remaining`, `done_mutex` and `done_cv` live on the stack of `RunBatch`. The worker that brings `remaining` to zero takes
`done_mutex` only then. When the caller tests in between, it returns without having waited, and the worker locks and notifies
what is no longer there (`Clean`, `barrier_clean`).

| here | there |
| --- | --- |
| `call n`   | `RunBatch` up to its `notify_all` (`:66`) |
| `caller`   | one step of the rest of `RunBatch` |
| `worker w` | one step of `Worker` and of the task it runs; a worker that waits for a task takes none |
| `wake`     | a spurious wakeup of the caller |

A step on what is no longer there is not defined, so there is none in the model.
-/
namespace OriginDB

open Machine

/-- `fn(index)` of a batch. -/
structure BatchTask where
  batch : Nat
  index : Nat
deriving DecidableEq

/-- Where a worker is. -/
inductive PoolPhase where
  /-- waits for a task -/
  | idle
  | running (task : BatchTask)
  /-- at `remaining.fetch_sub` -/
  | counting (task : BatchTask)
  /-- has brought `remaining` to zero, waits for `done_mutex` -/
  | locking (batch : Nat)
  | notifying (batch : Nat)
  | unlocking (batch : Nat)
deriving DecidableEq

/-- Where the caller of `RunBatch` is. -/
inductive CallerPhase where
  | outside
  /-- waits for `done_mutex` -/
  | locking
  /-- at `remaining.load() == 0` -/
  | testing
  | asleep
  /-- about to unlock `done_mutex` and to leave -/
  | returning
deriving DecidableEq

/-- `DeliveryPool` and the batch that runs on it. -/
structure DeliveryPool where
  workers : List PoolPhase
  tasks : List BatchTask := []
  caller : CallerPhase := .outside
  /-- The number of the batch whose variables are, or were last, on the stack. -/
  batch : Nat := 0
  remaining : Nat := 0
  /-- Every task that was pushed, and those whose `fn` has finished. -/
  submitted : List BatchTask := []
  finished : List BatchTask := []
deriving DecidableEq

/-- The batch whose variables the worker has still to use. -/
def PoolPhase.uses : PoolPhase → Option Nat
  | .idle => none
  | .running t | .counting t => some t.batch
  | .locking b | .notifying b | .unlocking b => some b

/-- The task that is popped and not counted. -/
def PoolPhase.task : PoolPhase → Option BatchTask
  | .running t | .counting t => some t
  | _ => none

/-- The task whose `fn` runs. -/
def PoolPhase.runs : PoolPhase → Option BatchTask
  | .running t => some t
  | _ => none

def PoolPhase.holdsDone (b : Nat) : PoolPhase → Bool
  | .notifying b' | .unlocking b' => b' = b
  | _ => false

def CallerPhase.holdsDone : CallerPhase → Bool
  | .testing | .returning => true
  | _ => false

namespace DeliveryPool

inductive Label where
  | call (count : Nat)
  | caller
  | worker (w : Nat)
  | wake
deriving DecidableEq

def boot (threads : Nat) : DeliveryPool where workers := List.replicate threads .idle

def goes (s : DeliveryPool) (w : Nat) (p : PoolPhase) : DeliveryPool := { s with workers := s.workers.set w p }

def batchTasks (batch count : Nat) : List BatchTask := (List.range count).map fun i => ⟨batch, i⟩

/-- The variables of the batch are on the stack. -/
def Alive (s : DeliveryPool) (b : Nat) : Prop := b = s.batch ∧ s.caller ≠ .outside

instance (s : DeliveryPool) (b : Nat) : Decidable (s.Alive b) := inferInstanceAs (Decidable (_ ∧ _))

def doneFree (s : DeliveryPool) : Bool := !s.caller.holdsDone && s.workers.all fun p => !p.holdsDone s.batch

/-- `done_cv.notify_one`, heard by a caller that sleeps. -/
def notified (s : DeliveryPool) : DeliveryPool := if s.caller = .asleep then { s with caller := .locking } else s

/-- `RunBatch` pushes its tasks. -/
def call (s : DeliveryPool) (count : Nat) : Option DeliveryPool :=
  if s.caller = .outside then
    if count = 0 then some s
    else some { s with
      caller := .locking, batch := s.batch + 1, remaining := count,
      tasks := s.tasks ++ batchTasks (s.batch + 1) count, submitted := s.submitted ++ batchTasks (s.batch + 1) count }
  else none

/-- The next step of `RunBatch` after the push. -/
def wait (s : DeliveryPool) : Option DeliveryPool :=
  match s.caller with
  | .outside => none
  | .locking => if s.doneFree then some { s with caller := .testing } else none
  | .testing => some { s with caller := if s.remaining = 0 then .returning else .asleep }
  | .asleep => none
  | .returning => some { s with caller := .outside }

/-- The next step of a worker. -/
def work (s : DeliveryPool) (w : Nat) : Option DeliveryPool :=
  match s.workers[w]? with
  | none => none
  | some .idle =>
    match s.tasks with
    | [] => none
    | t :: rest => some { s.goes w (.running t) with tasks := rest }
  | some (.running t) => some { s.goes w (.counting t) with finished := s.finished ++ [t] }
  | some (.counting t) =>
    if s.Alive t.batch then
      some { s.goes w (if s.remaining = 1 then .locking t.batch else .idle) with remaining := s.remaining - 1 }
    else none
  | some (.locking b) => if s.Alive b ∧ s.doneFree then some (s.goes w (.notifying b)) else none
  | some (.notifying b) => if s.Alive b then some (s.notified.goes w (.unlocking b)) else none
  | some (.unlocking b) => if s.Alive b then some (s.goes w .idle) else none

def step (s : DeliveryPool) : Label → Option DeliveryPool
  | .call count => s.call count
  | .caller => s.wait
  | .worker w => s.work w
  | .wake => some s.notified

def inHand (s : DeliveryPool) : List BatchTask := s.workers.filterMap PoolPhase.task

def running (s : DeliveryPool) : List BatchTask := s.workers.filterMap PoolPhase.runs

/-- No worker has a step to take on variables that are gone. -/
def Clean (s : DeliveryPool) : Prop := ∀ p ∈ s.workers, ∀ b, p.uses = some b → s.Alive b

/-- The caller does not find zero while the worker that made it zero waits for `done_mutex`. -/
def Patient (s : DeliveryPool) (l : Label) : Prop :=
  l = .caller → s.caller = .testing → s.remaining = 0 → ∀ p ∈ s.workers, p ≠ .locking s.batch

instance (s : DeliveryPool) (l : Label) : Decidable (Patient s l) := inferInstanceAs (Decidable (_ → _ → _ → _))

/-! ## What a step does -/

section
variable {s s' : DeliveryPool} {w : Nat} {p p' : PoolPhase} {l : Label}

/-- What a step of a worker does. -/
inductive Works (s : DeliveryPool) (w : Nat) : DeliveryPool → Prop
  | pops (t : BatchTask) (rest : List BatchTask) (hp : s.workers[w]? = some .idle) (ht : s.tasks = t :: rest) :
      Works s w { s.goes w (.running t) with tasks := rest }
  | finishes (t : BatchTask) (hp : s.workers[w]? = some (.running t)) :
      Works s w { s.goes w (.counting t) with finished := s.finished ++ [t] }
  | last (t : BatchTask) (hp : s.workers[w]? = some (.counting t)) (halive : s.Alive t.batch) (hone : s.remaining = 1) :
      Works s w { s.goes w (.locking t.batch) with remaining := 0 }
  | counts (t : BatchTask) (hp : s.workers[w]? = some (.counting t)) (halive : s.Alive t.batch) (hmore : s.remaining ≠ 1) :
      Works s w { s.goes w .idle with remaining := s.remaining - 1 }
  | locks (b : Nat) (hp : s.workers[w]? = some (.locking b)) (halive : s.Alive b) (hfree : s.doneFree = true) :
      Works s w (s.goes w (.notifying b))
  | notifies (b : Nat) (hp : s.workers[w]? = some (.notifying b)) (halive : s.Alive b) : Works s w (s.notified.goes w (.unlocking b))
  | unlocks (b : Nat) (hp : s.workers[w]? = some (.unlocking b)) (halive : s.Alive b) : Works s w (s.goes w .idle)

theorem work_cases (h : s.work w = some s') : Works s w s' := by
  unfold work at h
  cases hp : s.workers[w]? with
  | none => simp [hp] at h
  | some p =>
    simp only [hp] at h
    cases p with
    | idle =>
      cases ht : s.tasks with
      | nil => simp [ht] at h
      | cons t rest =>
        simp only [ht, Option.some.injEq] at h
        subst h
        exact .pops t rest hp ht
    | running t =>
      cases h
      exact .finishes t hp
    | counting t =>
      simp only at h
      split at h
      · rename_i halive
        cases h
        by_cases hone : s.remaining = 1
        · simpa [hone] using Works.last t hp halive hone
        · simpa [hone] using Works.counts t hp halive hone
      · cases h
    | locking b =>
      simp only at h
      split at h
      · rename_i hboth
        cases h
        exact .locks b hp hboth.1 hboth.2
      · cases h
    | notifying b =>
      simp only at h
      split at h
      · rename_i halive
        cases h
        exact .notifies b hp halive
      · cases h
    | unlocking b =>
      simp only at h
      split at h
      · rename_i halive
        cases h
        exact .unlocks b hp halive
      · cases h

/-- Every step of the machine. -/
inductive Transition (s : DeliveryPool) : Label → DeliveryPool → Prop
  | empty (hout : s.caller = .outside) : Transition s (.call 0) s
  | submits (count : Nat) (hout : s.caller = .outside) (hpos : 0 < count) :
      Transition s (.call count) { s with
        caller := .locking, batch := s.batch + 1, remaining := count,
        tasks := s.tasks ++ batchTasks (s.batch + 1) count, submitted := s.submitted ++ batchTasks (s.batch + 1) count }
  | locks (hlocking : s.caller = .locking) (hfree : s.doneFree = true) : Transition s .caller { s with caller := .testing }
  | sees (htesting : s.caller = .testing) (hzero : s.remaining = 0) : Transition s .caller { s with caller := .returning }
  | sleeps (htesting : s.caller = .testing) (hmore : s.remaining ≠ 0) : Transition s .caller { s with caller := .asleep }
  | returns (hreturning : s.caller = .returning) : Transition s .caller { s with caller := .outside }
  | worker (w : Nat) (s' : DeliveryPool) (h : Works s w s') : Transition s (.worker w) s'
  | wake : Transition s .wake s.notified

theorem step_cases (h : s.step l = some s') : Transition s l s' := by
  cases l with
  | call count =>
    simp only [step, call] at h
    split at h
    · rename_i hout
      split at h
      · rename_i hzero
        cases h
        subst hzero
        exact .empty hout
      · rename_i hpos
        cases h
        exact .submits count hout (Nat.pos_of_ne_zero hpos)
    · cases h
  | caller =>
    simp only [step, wait] at h
    split at h
    · cases h
    · rename_i hlocking
      split at h
      · cases h
        exact .locks hlocking ‹_›
      · cases h
    · rename_i htesting
      cases h
      by_cases hzero : s.remaining = 0
      · simpa [hzero] using Transition.sees htesting hzero
      · simpa [hzero] using Transition.sleeps htesting hzero
    · cases h
    · cases h
      exact .returns ‹_›
  | worker w => exact .worker w s' (work_cases h)
  | wake =>
    cases h
    exact .wake

end

/-! ## Every run -/

/-- Where the tasks are, and what the variables of the batch say of them. -/
structure Inv (s : DeliveryPool) : Prop where
  once : (s.finished ++ s.running ++ s.tasks).Perm s.submitted
  fresh : s.submitted.Nodup ∧ ∀ t ∈ s.submitted, t.batch ≤ s.batch
  left : s.remaining = s.inHand.length + s.tasks.length
  current : ∀ t ∈ s.inHand ++ s.tasks, t.batch = s.batch
  done : s.caller = .returning ∨ s.caller = .outside → s.remaining = 0
  alone : s.caller.holdsDone = true → ∀ p ∈ s.workers, p.holdsDone s.batch = false

section
variable {s s' : DeliveryPool} {w : Nat} {p p' : PoolPhase} {l : Label}

@[simp] theorem notified_workers : s.notified.workers = s.workers := by
  unfold notified
  split <;> rfl

@[simp] theorem notified_tasks : s.notified.tasks = s.tasks := by
  unfold notified
  split <;> rfl

@[simp] theorem notified_batch : s.notified.batch = s.batch := by
  unfold notified
  split <;> rfl

/-- A notification only puts the caller back to the mutex. -/
theorem notified_cases : s.notified = s ∨ (s.caller = .asleep ∧ s.notified = { s with caller := .locking }) := by
  unfold notified
  split
  · exact Or.inr ⟨‹_›, rfl⟩
  · exact Or.inl rfl

theorem filterMap_goes (p' : PoolPhase) (f : PoolPhase → Option BatchTask) (hp : s.workers[w]? = some p) :
    ((f p).toList ++ (s.goes w p').workers.filterMap f).Perm ((f p').toList ++ s.workers.filterMap f) :=
  Lists.filterMap_set_perm f hp

theorem mem_goes {q : PoolPhase} (hq : q ∈ (s.goes w p').workers) : q = p' ∨ q ∈ s.workers := (List.mem_or_eq_of_mem_set hq).symm

theorem Inv.boot (threads : Nat) : Inv (boot threads) where
  once := by simp [DeliveryPool.boot, running, PoolPhase.runs]
  fresh := by simp [DeliveryPool.boot]
  left := by
    have hnone : (List.replicate threads PoolPhase.idle).filterMap PoolPhase.task = [] :=
      List.filterMap_eq_nil_iff.2 fun p hp => by rw [List.eq_of_mem_replicate hp]; rfl
    simp [DeliveryPool.boot, inHand, hnone]
  current := by simp [DeliveryPool.boot, inHand, PoolPhase.task]
  done := fun _ => rfl
  alone := by simp [DeliveryPool.boot, CallerPhase.holdsDone]

/-- Nothing is left to do when `RunBatch` has returned, or is about to. -/
theorem Inv.nothing_left (h : Inv s) (hzero : s.remaining = 0) : s.inHand = [] ∧ s.tasks = [] := by
  have := h.left
  exact ⟨List.length_eq_zero_iff.1 (by omega), List.length_eq_zero_iff.1 (by omega)⟩

theorem running_sublist : s.running.Sublist s.inHand := by
  simp only [running, inHand]
  induction s.workers with
  | nil => exact .slnil
  | cons p ws ih =>
    cases p with
    | running t => exact ih.cons_cons t
    | counting t => exact ih.cons t
    | _ => exact ih

/-- While a task is left the variables are on the stack. -/
theorem Inv.not_outside (h : Inv s) (hpos : 0 < s.remaining) : s.caller ≠ .outside ∧ s.caller ≠ .returning :=
  ⟨fun hout => by have := h.done (Or.inr hout); omega, fun hret => by have := h.done (Or.inl hret); omega⟩

/-- A worker goes on that does not hold `done_mutex` and does not take it from the caller. -/
theorem Inv.alone_goes (h : Inv s) (hp' : s.caller.holdsDone = true → p'.holdsDone s.batch = false) (hheld : s.caller.holdsDone = true)
    (q : PoolPhase) (hq : q ∈ (s.goes w p').workers) : q.holdsDone s.batch = false := by
  obtain rfl | hq := mem_goes hq
  · exact hp' hheld
  · exact h.alone hheld q hq

/-- The caller goes on. -/
theorem Inv.calls (h : Inv s) (c : CallerPhase) (hdone : c = .returning ∨ c = .outside → s.remaining = 0)
    (halone : c.holdsDone = true → ∀ p ∈ s.workers, p.holdsDone s.batch = false) : Inv { s with caller := c } :=
  ⟨h.once, h.fresh, h.left, h.current, hdone, halone⟩

/-- A worker goes on with the task it has, or without one. -/
theorem Inv.goes (h : Inv s) (hp : s.workers[w]? = some p) (hruns : p'.runs = p.runs) (htask : p'.task = p.task)
    (hholds : s.caller.holdsDone = true → p'.holdsDone s.batch = false) : Inv (s.goes w p') := by
  have hrun := filterMap_goes p' PoolPhase.runs hp
  have hhand := filterMap_goes p' PoolPhase.task hp
  rw [hruns, List.perm_append_left_iff] at hrun
  rw [htask, List.perm_append_left_iff] at hhand
  refine ⟨((hrun.append_left _).append_right _).trans h.once, h.fresh, ?_, fun t ht => ?_, h.done, h.alone_goes hholds⟩
  · have := hhand.length_eq
    have := h.left
    simp only [inHand, DeliveryPool.goes] at *
    omega
  · exact h.current t ((hhand.append_right _).mem_iff.1 ht)

theorem Inv.notified (h : Inv s) : Inv s.notified := by
  obtain hsame | ⟨-, hlocking⟩ := notified_cases (s := s)
  · rwa [hsame]
  · rw [hlocking]
    exact h.calls .locking (by simp) (by simp [CallerPhase.holdsDone])

theorem Inv.works (h : Inv s) (hs : Works s w s') : Inv s' := by
  cases hs with
  | pops t rest hp ht =>
    have hrun := filterMap_goes (.running t) PoolPhase.runs hp
    have hhand := filterMap_goes (.running t) PoolPhase.task hp
    simp only [PoolPhase.runs, PoolPhase.task, Option.toList_none, Option.toList_some, List.nil_append, List.singleton_append] at hrun hhand
    refine ⟨?_, h.fresh, ?_, fun u hu => ?_, h.done, h.alone_goes fun _ => rfl⟩
    · refine List.Perm.trans ?_ h.once
      rw [ht, List.append_assoc, List.append_assoc]
      exact ((hrun.append_right rest).trans List.perm_middle.symm).append_left _
    · have hlen := hhand.length_eq
      have hleft := h.left
      rw [ht] at hleft
      simp only [inHand, DeliveryPool.goes, List.length_cons] at hlen hleft ⊢
      omega
    · refine h.current u ?_
      rw [ht]
      exact ((hhand.append_right rest).trans List.perm_middle.symm).mem_iff.1 hu
  | finishes t hp =>
    have hrun := filterMap_goes (.counting t) PoolPhase.runs hp
    simp only [PoolPhase.runs, Option.toList_none, Option.toList_some, List.nil_append, List.singleton_append] at hrun
    have hrest := filterMap_goes (.counting t) PoolPhase.task hp
    simp only [PoolPhase.task, List.perm_append_left_iff] at hrest
    refine ⟨?_, h.fresh, ?_, fun u hu => h.current u ((hrest.append_right _).mem_iff.1 hu), h.done, h.alone_goes fun _ => rfl⟩
    · refine List.Perm.trans (List.Perm.append_right _ ?_) h.once
      rw [List.append_assoc]
      exact hrun.append_left _
    · have := hrest.length_eq
      have := h.left
      simp only [inHand, DeliveryPool.goes] at *
      omega
  | last t hp halive hone =>
    have hrun := filterMap_goes (.locking t.batch) PoolPhase.runs hp
    have hhand := filterMap_goes (.locking t.batch) PoolPhase.task hp
    simp only [PoolPhase.runs, PoolPhase.task, Option.toList_none, Option.toList_some, List.nil_append, List.singleton_append] at hrun hhand
    refine ⟨((hrun.append_left _).append_right _).trans h.once, h.fresh, ?_, fun u hu => ?_, fun _ => rfl, h.alone_goes fun _ => rfl⟩
    · have hlen := hhand.length_eq
      have hleft := h.left
      simp only [inHand, DeliveryPool.goes, List.length_cons] at hlen hleft ⊢
      omega
    · exact h.current u ((hhand.append_right _).mem_iff.1 (List.mem_cons_of_mem t hu))
  | counts t hp halive hmore =>
    have hrun := filterMap_goes .idle PoolPhase.runs hp
    have hhand := filterMap_goes .idle PoolPhase.task hp
    simp only [PoolPhase.runs, PoolPhase.task, Option.toList_none, Option.toList_some, List.nil_append, List.singleton_append] at hrun hhand
    have hlen := hhand.length_eq
    have hleft := h.left
    simp only [inHand, DeliveryPool.goes, List.length_cons] at hlen hleft
    refine ⟨((hrun.append_left _).append_right _).trans h.once, h.fresh, ?_, fun u hu => ?_, fun hdone => ?_, h.alone_goes fun _ => rfl⟩
    · simp only [inHand, DeliveryPool.goes]
      omega
    · exact h.current u ((hhand.append_right _).mem_iff.1 (List.mem_cons_of_mem t hu))
    · have := h.done hdone
      simp only [this, Nat.zero_sub]
  | locks b hp halive hfree =>
    refine h.goes hp rfl rfl fun hheld => ?_
    simp [doneFree, hheld] at hfree
  | notifies b hp halive =>
    have hp' : s.notified.workers[w]? = some (.notifying b) := by rw [notified_workers, hp]
    refine h.notified.goes hp' rfl rfl fun hheld => ?_
    have := h.notified.alone hheld _ (List.mem_of_getElem? hp')
    rw [notified_batch, PoolPhase.holdsDone, halive.1, decide_eq_false_iff_not] at this
    exact absurd rfl this
  | unlocks b hp halive => exact h.goes hp rfl rfl fun _ => rfl

/-- The tasks of a batch. -/
theorem mem_batchTasks {b n : Nat} {t : BatchTask} : t ∈ batchTasks b n ↔ t.batch = b ∧ t.index < n := by
  simp only [batchTasks, List.mem_map, List.mem_range]
  constructor
  · rintro ⟨i, hi, rfl⟩
    exact ⟨rfl, hi⟩
  · rintro ⟨rfl, hi⟩
    exact ⟨t.index, hi, rfl⟩

theorem nodup_batchTasks (b n : Nat) : (batchTasks b n).Nodup :=
  List.nodup_range.map fun i j hij => by simpa using hij

/-- **Every step keeps the invariant.** -/
theorem Inv.step (h : Inv s) (hs : s.step l = some s') : Inv s' := by
  cases step_cases hs with
  | empty hout => exact h
  | submits count hout hpos =>
    obtain ⟨hhand, htasks⟩ := h.nothing_left (h.done (Or.inr hout))
    refine ⟨?_, ⟨?_, fun t ht => ?_⟩, ?_, fun t ht => ?_, by simp, by simp [CallerPhase.holdsDone]⟩
    · rw [← List.append_assoc]
      exact h.once.append_right _
    · refine h.fresh.1.append (nodup_batchTasks _ _) fun t ht ht' => ?_
      have := h.fresh.2 t ht
      have := (mem_batchTasks.1 ht').1
      omega
    · obtain ht | ht := List.mem_append.1 ht
      · exact Nat.le_succ_of_le (h.fresh.2 t ht)
      · exact Nat.le_of_eq (mem_batchTasks.1 ht).1
    · have hnone : s.workers.filterMap PoolPhase.task = [] := hhand
      simp [inHand, hnone, htasks, batchTasks]
    · have hnone : s.workers.filterMap PoolPhase.task = [] := hhand
      simp only [inHand, hnone, htasks, List.nil_append] at ht
      exact (mem_batchTasks.1 ht).1
  | locks hlocking hfree =>
    refine h.calls .testing (by simp) fun _ p hp => ?_
    simp only [doneFree, Bool.and_eq_true, List.all_eq_true] at hfree
    simpa using hfree.2 p hp
  | sees htesting hzero => exact h.calls .returning (fun _ => hzero) fun _ => h.alone (by simp [htesting, CallerPhase.holdsDone])
  | sleeps htesting hmore => exact h.calls .asleep (by simp) (by simp [CallerPhase.holdsDone])
  | returns hreturning => exact h.calls .outside (fun _ => h.done (Or.inl hreturning)) (by simp [CallerPhase.holdsDone])
  | worker w s' hw => exact h.works hw
  | wake => exact h.notified

/-! ### With a patient caller -/

/-- Nobody uses what is gone, or about to go. -/
structure Tidy (s : DeliveryPool) : Prop extends Inv s where
  clean : Clean s
  leaving : s.caller = .returning → ∀ p ∈ s.workers, p.uses = none

theorem Tidy.boot (threads : Nat) : Tidy (boot threads) := by
  refine ⟨.boot threads, fun p hp b hb => ?_, by simp [DeliveryPool.boot]⟩
  rw [List.eq_of_mem_replicate hp] at hb
  cases hb

/-- A worker goes on with variables that are there. -/
theorem Tidy.clean_goes (h : Tidy s) (p' : PoolPhase) (hp' : ∀ b, p'.uses = some b → s.Alive b) (q : PoolPhase)
    (hq : q ∈ (s.goes w p').workers) (b : Nat) (hb : q.uses = some b) : s.Alive b := by
  obtain rfl | hq := mem_goes hq
  · exact hp' b hb
  · exact h.clean q hq b hb

/-- A worker that uses the variables does not find the caller leaving. -/
theorem Tidy.not_leaving {b : Nat} (h : Tidy s) (hp : s.workers[w]? = some p) (huses : p.uses = some b) : s.caller ≠ .returning := by
  intro hreturning
  rw [h.leaving hreturning p (List.mem_of_getElem? hp)] at huses
  cases huses

theorem Tidy.works (h : Tidy s) (hs : Works s w s') : Tidy s' := by
  refine ⟨h.toInv.works hs, ?_, ?_⟩
  · cases hs with
    | pops t rest hp ht =>
      have hpos : 0 < s.remaining := by
        rw [h.left, ht, List.length_cons]
        omega
      have hbatch : t.batch = s.batch := h.current t (by simp [ht])
      exact h.clean_goes (.running t) fun b hb => by
        cases hb
        exact ⟨hbatch, (h.not_outside hpos).1⟩
    | finishes t hp => exact h.clean_goes (.counting t) fun b hb => h.clean _ (List.mem_of_getElem? hp) b hb
    | last t hp halive hone => exact h.clean_goes (.locking t.batch) fun b hb => h.clean _ (List.mem_of_getElem? hp) b hb
    | counts t hp halive hmore => exact h.clean_goes .idle fun b hb => by cases hb
    | locks b hp halive hfree => exact h.clean_goes (.notifying b) fun b' hb => h.clean _ (List.mem_of_getElem? hp) b' hb
    | notifies b hp halive =>
      intro q hq b' hb'
      have halive' : s.Alive b' := by
        obtain rfl | hq := mem_goes hq
        · exact h.clean _ (List.mem_of_getElem? hp) b' hb'
        · exact h.clean q (by simpa using hq) b' hb'
      obtain hsame | ⟨-, hlocking⟩ := notified_cases (s := s)
      · rwa [hsame]
      · rw [hlocking]
        exact ⟨halive'.1, by simp [goes]⟩
    | unlocks b hp halive => exact h.clean_goes .idle fun b' hb => by cases hb
  · -- the caller is not leaving, for a worker has a task or uses its variables
    cases hs with
    | pops t rest hp ht =>
      have hpos : 0 < s.remaining := by
        rw [h.left, ht, List.length_cons]
        omega
      exact fun hreturning => absurd hreturning (h.not_outside hpos).2
    | finishes t hp => exact fun hreturning => absurd hreturning (h.not_leaving hp rfl)
    | last t hp halive hone => exact fun hreturning => absurd hreturning (h.not_leaving hp rfl)
    | counts t hp halive hmore => exact fun hreturning => absurd hreturning (h.not_leaving hp rfl)
    | locks b hp halive hfree => exact fun hreturning => absurd hreturning (h.not_leaving hp rfl)
    | notifies b hp halive =>
      intro hreturning
      obtain hsame | ⟨-, hlocking⟩ := notified_cases (s := s)
      · rw [hsame] at hreturning
        exact absurd hreturning (h.not_leaving hp rfl)
      · rw [hlocking] at hreturning
        cases hreturning
    | unlocks b hp halive => exact fun hreturning => absurd hreturning (h.not_leaving hp rfl)

/-- When the caller finds zero and nobody waits for `done_mutex`, nobody needs it any more. -/
theorem Tidy.nobody_uses (h : Tidy s) (htesting : s.caller = .testing) (hzero : s.remaining = 0)
    (hpatient : ∀ p ∈ s.workers, p ≠ .locking s.batch) (p : PoolPhase) (hp : p ∈ s.workers) : p.uses = none := by
  have hheld : s.caller.holdsDone = true := by simp [htesting, CallerPhase.holdsDone]
  have hnone : p.task = none := by
    have := (h.nothing_left hzero).1
    exact List.filterMap_eq_nil_iff.1 this p hp
  cases p with
  | idle => rfl
  | running t | counting t => cases hnone
  | locking b =>
    have hb := (h.clean _ hp b rfl).1
    exact absurd (congrArg PoolPhase.locking hb) (hpatient _ hp)
  | notifying b | unlocking b =>
    have hb := (h.clean _ hp b rfl).1
    have hno := h.alone hheld _ hp
    simp [PoolPhase.holdsDone, hb] at hno

/-- **A patient step leaves nobody with variables that are gone.** -/
theorem Tidy.step (h : Tidy s) (hpatient : Patient s l) (hs : s.step l = some s') : Tidy s' := by
  refine ⟨h.toInv.step hs, ?_, ?_⟩
  · cases step_cases hs with
    | empty hout => exact h.clean
    | submits count hout hpos => exact fun p hp b hb => absurd hout (h.clean p hp b hb).2
    | returns hreturning =>
      intro p hp b hb
      rw [h.leaving hreturning p hp] at hb
      cases hb
    | worker w s' hw => exact (h.works hw).clean
    | wake =>
      obtain hsame | ⟨-, hlocking⟩ := notified_cases (s := s)
      · rw [hsame]
        exact h.clean
      · rw [hlocking]
        exact fun p hp b hb => ⟨(h.clean p hp b hb).1, by simp⟩
    | locks hat hfree | sees hat hzero | sleeps hat hmore => exact fun p hp b hb => ⟨(h.clean p hp b hb).1, by simp⟩
  · cases step_cases hs with
    | empty hout => exact h.leaving
    | sees htesting hzero => exact fun _ => h.nobody_uses htesting hzero (hpatient rfl htesting hzero)
    | worker w s' hw => exact (h.works hw).leaving
    | wake =>
      obtain hsame | ⟨-, hlocking⟩ := notified_cases (s := s)
      · rw [hsame]
        exact h.leaving
      · rw [hlocking]
        simp
    | submits count hout hpos | locks hat hfree | sleeps hat hmore | returns hat => simp

/-- A caller that does not wait for the last worker leaves it with variables that are gone. -/
theorem leaves_early (h : ¬ Patient s .caller) : ∃ s', run DeliveryPool.step s [.caller, .caller] = some s' ∧ ¬ Clean s' := by
  simp only [Patient, true_implies, not_forall] at h
  obtain ⟨htesting, hzero, p, hp, hlocking⟩ := h
  obtain rfl : p = .locking s.batch := by simpa using hlocking
  refine ⟨{ s with caller := .outside }, ?_, fun hclean => (hclean _ hp s.batch rfl).2 rfl⟩
  simp [run, DeliveryPool.step, wait, htesting, hzero]

end

/-- **`RunBatch` is a barrier, and a clean one** in every run whose caller does not find zero while the last worker waits
for `done_mutex`. -/
theorem barrier_clean (threads : Nat) (ls : List Label) (s : DeliveryPool) (hr : run DeliveryPool.step (boot threads) ls = some s) :
    (s.finished.Nodup ∧ (∀ t ∈ s.finished, t ∈ s.submitted) ∧ (s.caller = .outside → s.finished.Perm s.submitted)) ∧
    (Allowed DeliveryPool.step Patient (boot threads) ls →
      Clean s ∧ (¬ Patient s .caller → ∃ s', run DeliveryPool.step s [.caller, .caller] = some s' ∧ ¬ Clean s')) := by
  have hinv : Inv s := run_invariant Inv (fun _ _ _ h (_ : True) hs => h.step hs) (.boot threads) (.of_forall fun _ _ _ => trivial) hr
  refine ⟨⟨?_, fun t ht => ?_, fun hout => ?_⟩, fun hpatient => ?_⟩
  · have hnodup := hinv.once.nodup_iff.2 hinv.fresh.1
    rw [List.append_assoc] at hnodup
    exact hnodup.of_append_left
  · exact hinv.once.mem_iff.1 (List.mem_append_left _ (List.mem_append_left _ ht))
  · obtain ⟨hhand, htasks⟩ := hinv.nothing_left (hinv.done (Or.inr hout))
    have hrunning : s.running = [] := List.sublist_nil.1 (hhand ▸ running_sublist)
    simpa [hrunning, htasks] using hinv.once
  · exact ⟨(run_invariant Tidy (fun _ _ _ h ha hs => h.step ha hs) (.boot threads) hpatient hr).clean, leaves_early⟩

/-- One worker and two batches; the caller waits for the first. -/
def twoBatches : List Label :=
  [.call 1, .caller, .caller] ++ List.replicate 6 (.worker 0) ++ [.caller, .caller, .caller, .call 2]

theorem barrier_clean_two : ∃ s, run DeliveryPool.step (boot 1) twoBatches = some s ∧ s.finished.Nodup ∧ Clean s :=
  have hclean := barrier_clean 1 twoBatches _ rfl
  ⟨_, rfl, hclean.1.1, (hclean.2 (by decide)).1⟩

/-- The worker has brought `remaining` to zero, the caller tests, leaves, and the worker takes `done_mutex`. -/
theorem barrier_left_early : ∃ s, run DeliveryPool.step (boot 1) ([.call 1, .worker 0, .worker 0, .worker 0] ++
      [.caller, .caller, .caller]) = some s ∧ s.caller = .outside ∧ s.workers = [.locking 1] ∧ ¬ Clean s :=
  ⟨_, rfl, rfl, rfl, fun hclean => (hclean (.locking 1) (by decide) 1 rfl).2 rfl⟩

end DeliveryPool

end OriginDB
