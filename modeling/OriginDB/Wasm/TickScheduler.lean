import OriginDB.Lib.Fairness
import OriginDB.Lib.Lists
/-!
# The tick scheduler and its threads (`tick_scheduler.cpp:22-90`)

The dispatcher claims an entry by a compare-and-swap of its `in_flight`, pushes it on the queue and notifies one worker;
a worker pops it, runs its reducer, counts and clears `in_flight`. Only the queue has a mutex.

| here | there |
| --- | --- |
| `dispatch due` | one step of `DispatchLoop`, phase by phase; the clock says whether an entry is due |
| `notify w`     | its `notify_one` (`:56`), which wakes `w` when some worker sleeps |
| `work w`       | one step of the `WorkerLoop` of worker `w`, phase by phase |
| `wake w`       | a spurious wakeup |
| `start`, `stop` | `Start`, and one step of `Stop`, phase by phase; they are not called at the same time |
| `snapshot`     | `SnapshotAndReset` |

`Ledger` says where the ticks are, `Threads` what the workers know of the queue; `Inv.step` keeps both.
-/
namespace OriginDB

open Machine

namespace Wasm

/-- A tick: an entry, and the number of ticks that were pushed before it. -/
structure Tick where
  entry : Nat
  ticket : Nat
deriving DecidableEq

/-- Where a worker is. -/
inductive WorkerPhase where
  /-- waits for `queue_mutex_` -/
  | locking
  /-- in the predicate, at `!queue_.empty()` -/
  | peeking
  /-- in the predicate, at `!running_.load()` -/
  | testing
  /-- the predicate was false, `queue_mutex_` is still held -/
  | turningIn
  | asleep
  /-- at `!running_.load() && queue_.empty()` -/
  | up
  | popping
  | executing (tick : Tick)
  /-- at `stat_executed_.fetch_add` -/
  | counting (tick : Tick)
  /-- at `in_flight.store(false)` -/
  | clearing (tick : Tick)
  | ended
deriving DecidableEq

/-- Where the dispatcher is. -/
inductive DispatcherPhase where
  /-- at `while (running_.load())` -/
  | looping
  /-- at `now >= rt->next_fire` -/
  | visiting (entry : Nat)
  /-- at the compare-and-swap -/
  | due (entry : Nat)
  /-- waits for `queue_mutex_` to push -/
  | won (entry : Nat)
  /-- at `notify_one` -/
  | pushed (entry : Nat)
  | sleeping
  | ended
deriving DecidableEq

/-- Where `Stop` is. -/
inductive StopPhase where
  | idle
  /-- `running_` is cleared -/
  | notifying
  /-- `notify_all` is done -/
  | joining
deriving DecidableEq

/-- `TickScheduler` (tick_scheduler.h:26). -/
structure TickScheduler where
  numWorkers : Nat
  inFlight : List Bool
  running : Bool := false
  queue : List Tick := []
  workers : List WorkerPhase := []
  dispatcher : DispatcherPhase := .ended
  stopper : StopPhase := .idle
  statExecuted : Nat := 0
  statSkipped : Nat := 0
  /-- What the snapshots have taken from `stat_executed_`. -/
  reported : Nat := 0
  /-- Every tick that was pushed, and those whose reducer has run. -/
  pushed : List Tick := []
  executed : List Tick := []
deriving DecidableEq

/-- Whether `queue_mutex_` is held. -/
def WorkerPhase.holdsMutex : WorkerPhase → Bool
  | .peeking | .testing | .turningIn | .up | .popping => true
  | _ => false

/-- The tick that the worker has popped and whose flag it has not cleared. -/
def WorkerPhase.tick : WorkerPhase → Option Tick
  | .executing t | .counting t | .clearing t => some t
  | _ => none

/-- The tick that is popped and not counted. -/
def WorkerPhase.runs : WorkerPhase → Option Tick
  | .executing t | .counting t => some t
  | _ => none

/-- The tick whose reducer runs. -/
def WorkerPhase.calls : WorkerPhase → Option Tick
  | .executing t => some t
  | _ => none

/-- On the way to the queue. -/
def WorkerPhase.isIdle : WorkerPhase → Bool
  | .locking => true
  | p => p.holdsMutex

def WorkerPhase.woken : WorkerPhase → WorkerPhase
  | .asleep => .locking
  | p => p

def DispatcherPhase.claims : DispatcherPhase → List Nat
  | .won i => [i]
  | _ => []

/-- A `notify_one` is due. -/
def DispatcherPhase.notifies : DispatcherPhase → Nat
  | .pushed _ => 1
  | _ => 0

namespace TickScheduler

inductive Label where
  | dispatch (due : Bool)
  | notify (w : Nat)
  | work (w : Nat)
  | wake (w : Nat)
  | start
  | stop
  | snapshot
deriving DecidableEq

/-- The constructor and `AddEntry`, before `Start`. -/
def boot (numWorkers entries : Nat) : TickScheduler where
  numWorkers := if numWorkers = 0 then 1 else numWorkers
  inFlight := List.replicate entries false

def goes (s : TickScheduler) (w : Nat) (p : WorkerPhase) : TickScheduler := { s with workers := s.workers.set w p }

def sends (s : TickScheduler) (p : DispatcherPhase) : TickScheduler := { s with dispatcher := p }

def mutexFree (s : TickScheduler) : Bool := s.workers.all fun p => !p.holdsMutex

/-- `notify_one`: `w` is woken, which slept; or nobody slept. -/
def wakesOne (s : TickScheduler) (w : Nat) : Option TickScheduler :=
  if s.workers[w]? = some .asleep then some (s.goes w .locking)
  else if s.workers.all fun p => p ≠ .asleep then some s else none

def notifyAll (s : TickScheduler) : TickScheduler := { s with workers := s.workers.map WorkerPhase.woken }

/-- The next step of `DispatchLoop`. -/
def dispatch (s : TickScheduler) (due : Bool) : Option TickScheduler :=
  match s.dispatcher with
  | .looping => some (s.sends (if s.running then .visiting 0 else .ended))
  | .visiting i =>
    some (s.sends (if i < s.inFlight.length then (if due then .due i else .visiting (i + 1)) else .sleeping))
  | .due i =>
    match s.inFlight[i]? with
    | some false => some { s.sends (.won i) with inFlight := s.inFlight.set i true }
    | some true => some { s.sends (.visiting (i + 1)) with statSkipped := s.statSkipped + 1 }
    | none => none
  | .won i =>
    if s.mutexFree then
      some { s.sends (.pushed i) with queue := s.queue ++ [⟨i, s.pushed.length⟩], pushed := s.pushed ++ [⟨i, s.pushed.length⟩] }
    else none
  | .pushed _ => none
  | .sleeping => some (s.sends .looping)
  | .ended => none

/-- Where a worker goes that has no tick. -/
def next (s : TickScheduler) : WorkerPhase → Option WorkerPhase
  | .locking => if s.mutexFree then some .peeking else none
  | .peeking => some (if s.queue = [] then .testing else .up)
  | .testing => some (if s.running then .turningIn else .up)
  | .turningIn => some .asleep
  | .up => some (if !s.running ∧ s.queue = [] then .ended else .popping)
  | _ => none

/-- The next step of `WorkerLoop`. -/
def work (s : TickScheduler) (w : Nat) : Option TickScheduler :=
  match s.workers[w]? with
  | none => none
  | some .popping =>
    match s.queue with
    | [] => none
    | t :: rest => some { s.goes w (.executing t) with queue := rest }
  | some (.executing t) => some { s.goes w (.counting t) with executed := s.executed ++ [t] }
  | some (.counting t) => some { s.goes w (.clearing t) with statExecuted := s.statExecuted + 1 }
  | some (.clearing t) => some { s.goes w .locking with inFlight := s.inFlight.set t.entry false }
  | some p => (s.next p).map (s.goes w)

/-- The next step of `Stop`. -/
def stop (s : TickScheduler) : Option TickScheduler :=
  match s.stopper with
  | .idle => some (if s.running then { s with running := false, stopper := .notifying } else s)
  | .notifying => some { s.notifyAll with stopper := .joining }
  | .joining =>
    if s.dispatcher = .ended ∧ s.workers.all (fun p => p = .ended) then some { s with workers := [], stopper := .idle } else none

def start (s : TickScheduler) : Option TickScheduler :=
  if s.running then some s
  else if s.stopper = .idle then
    some { s with running := true, workers := List.replicate s.numWorkers .locking, dispatcher := .looping }
  else none

def step (s : TickScheduler) : Label → Option TickScheduler
  | .dispatch due => s.dispatch due
  | .notify w =>
    match s.dispatcher with
    | .pushed i => (s.wakesOne w).map fun s => s.sends (.visiting (i + 1))
    | _ => none
  | .work w => s.work w
  | .wake w => if s.workers[w]? = some .asleep then some (s.goes w .locking) else none
  | .start => s.start
  | .stop => s.stop
  | .snapshot => some { s with statExecuted := 0, statSkipped := 0, reported := s.reported + s.statExecuted }

/-- The ticks that are popped and whose flag is not cleared. -/
def atWork (s : TickScheduler) : List Tick := s.workers.filterMap WorkerPhase.tick

/-- The ticks that are popped and not counted. -/
def inHand (s : TickScheduler) : List Tick := s.workers.filterMap WorkerPhase.runs

def calling (s : TickScheduler) : List Tick := s.workers.filterMap WorkerPhase.calls

/-! ## What a step does -/

section
variable {s s' : TickScheduler} {w v : Nat} {p p' q : WorkerPhase} {d : DispatcherPhase}

@[simp] theorem goes_inFlight : (s.goes w p).inFlight = s.inFlight := rfl
@[simp] theorem goes_queue : (s.goes w p).queue = s.queue := rfl
@[simp] theorem goes_dispatcher : (s.goes w p).dispatcher = s.dispatcher := rfl
@[simp] theorem goes_running : (s.goes w p).running = s.running := rfl
@[simp] theorem goes_stopper : (s.goes w p).stopper = s.stopper := rfl
@[simp] theorem goes_workers : (s.goes w p).workers = s.workers.set w p := rfl
@[simp] theorem sends_workers : (s.sends d).workers = s.workers := rfl
@[simp] theorem sends_queue : (s.sends d).queue = s.queue := rfl
@[simp] theorem sends_running : (s.sends d).running = s.running := rfl
@[simp] theorem sends_stopper : (s.sends d).stopper = s.stopper := rfl
@[simp] theorem sends_inFlight : (s.sends d).inFlight = s.inFlight := rfl

/-- What a step of the dispatcher does. -/
inductive Dispatches (s : TickScheduler) : TickScheduler → Prop
  | sends (d : DispatcherPhase) (hnow : s.dispatcher.claims = []) (hquiet : s.dispatcher.notifies = 0) (hd : d.claims = [])
      (hended : s.dispatcher ≠ .ended) (hstopped : d = .ended → s.running = false) : Dispatches s (s.sends d)
  | claims (i : Nat) (hdue : s.dispatcher = .due i) (hfree : s.inFlight[i]? = some false) :
      Dispatches s { s.sends (.won i) with inFlight := s.inFlight.set i true }
  | skips (i : Nat) (hdue : s.dispatcher = .due i) (htaken : s.inFlight[i]? = some true) :
      Dispatches s { s.sends (.visiting (i + 1)) with statSkipped := s.statSkipped + 1 }
  | pushes (i : Nat) (hwon : s.dispatcher = .won i) (hmutex : s.mutexFree = true) :
      Dispatches s { s.sends (.pushed i) with
        queue := s.queue ++ [⟨i, s.pushed.length⟩], pushed := s.pushed ++ [⟨i, s.pushed.length⟩] }

theorem dispatch_cases {due : Bool} (h : s.dispatch due = some s') : Dispatches s s' := by
  unfold dispatch at h
  cases hd : s.dispatcher with
  | looping =>
    simp only [hd, Option.some.injEq] at h
    subst h
    refine .sends _ (by rw [hd]; rfl) (by rw [hd]; rfl) ?_ (by rw [hd]; exact DispatcherPhase.noConfusion) fun he => ?_
    · split <;> rfl
    · by_contra hr
      rw [if_pos (by simpa using hr)] at he
      cases he
  | visiting i =>
    simp only [hd, Option.some.injEq] at h
    subst h
    refine .sends _ (by rw [hd]; rfl) (by rw [hd]; rfl) ?_ (by rw [hd]; exact DispatcherPhase.noConfusion) fun he => ?_
    · split
      · split <;> rfl
      · rfl
    · split at he
      · split at he <;> cases he
      · cases he
  | due i =>
    simp only [hd] at h
    cases hi : s.inFlight[i]? with
    | none => simp [hi] at h
    | some b =>
      cases b with
      | false =>
        simp only [hi, Option.some.injEq] at h
        subst h
        exact .claims i hd hi
      | true =>
        simp only [hi, Option.some.injEq] at h
        subst h
        exact .skips i hd hi
  | won i =>
    simp only [hd] at h
    split at h
    · cases h
      exact .pushes i hd ‹_›
    · cases h
  | pushed i => simp [hd] at h
  | sleeping =>
    simp only [hd, Option.some.injEq] at h
    subst h
    exact .sends _ (by rw [hd]; rfl) (by rw [hd]; rfl) rfl (by rw [hd]; exact DispatcherPhase.noConfusion) (by simp)
  | ended => simp [hd] at h

/-- Where a worker without a tick goes from one phase. -/
inductive Next (s : TickScheduler) : WorkerPhase → WorkerPhase → Prop
  | locks (hmutex : s.mutexFree = true) : Next s .locking .peeking
  | nothing (hq : s.queue = []) : Next s .peeking .testing
  | something (hq : s.queue ≠ []) : Next s .peeking .up
  | runs (hr : s.running = true) : Next s .testing .turningIn
  | stopped (hr : s.running = false) : Next s .testing .up
  | sleeps : Next s .turningIn .asleep
  | ends (hr : s.running = false) (hq : s.queue = []) : Next s .up .ended
  | takes (hor : s.running = true ∨ s.queue ≠ []) : Next s .up .popping

theorem next_cases (h : s.next p = some p') : Next s p p' := by
  cases p with
  | locking =>
    simp only [next] at h
    split at h
    · cases h
      exact .locks ‹_›
    · cases h
  | peeking =>
    simp only [next, Option.some.injEq] at h
    subst h
    split
    · exact .nothing ‹_›
    · exact .something ‹_›
  | testing =>
    simp only [next, Option.some.injEq] at h
    subst h
    cases hr : s.running with
    | true => exact .runs hr
    | false => exact .stopped hr
  | turningIn =>
    cases h
    exact .sleeps
  | up =>
    simp only [next, Option.some.injEq] at h
    subst h
    split
    · rename_i hboth
      exact .ends (by simpa using hboth.1) hboth.2
    · rename_i hnot
      refine .takes ?_
      by_cases hr : s.running = true
      · exact Or.inl hr
      · exact Or.inr fun hq => hnot ⟨by simpa using hr, hq⟩
  | asleep | popping | executing t | counting t | clearing t | ended => simp [next] at h

/-- What a step of a worker does. -/
inductive Works (s : TickScheduler) (w : Nat) : TickScheduler → Prop
  | goes (p p' : WorkerPhase) (hp : s.workers[w]? = some p) (hnext : Next s p p') : Works s w (s.goes w p')
  | pops (t : Tick) (rest : List Tick) (hp : s.workers[w]? = some .popping) (hq : s.queue = t :: rest) :
      Works s w { s.goes w (.executing t) with queue := rest }
  | executes (t : Tick) (hp : s.workers[w]? = some (.executing t)) :
      Works s w { s.goes w (.counting t) with executed := s.executed ++ [t] }
  | counts (t : Tick) (hp : s.workers[w]? = some (.counting t)) :
      Works s w { s.goes w (.clearing t) with statExecuted := s.statExecuted + 1 }
  | clears (t : Tick) (hp : s.workers[w]? = some (.clearing t)) :
      Works s w { s.goes w .locking with inFlight := s.inFlight.set t.entry false }

theorem work_cases (h : s.work w = some s') : Works s w s' := by
  unfold work at h
  cases hp : s.workers[w]? with
  | none => simp [hp] at h
  | some p =>
    simp only [hp] at h
    cases p with
    | popping =>
      cases hq : s.queue with
      | nil => simp [hq] at h
      | cons t rest =>
        simp only [hq, Option.some.injEq] at h
        subst h
        exact .pops t rest hp hq
    | executing t =>
      cases h
      exact .executes t hp
    | counting t =>
      cases h
      exact .counts t hp
    | clearing t =>
      cases h
      exact .clears t hp
    | locking | peeking | testing | turningIn | asleep | up | ended =>
      obtain ⟨p', hnext, rfl⟩ := Option.map_eq_some_iff.1 h
      exact .goes _ p' hp (next_cases hnext)

/-- Every step of the machine. -/
inductive Transition (s : TickScheduler) : Label → TickScheduler → Prop
  | dispatch (due : Bool) (s' : TickScheduler) (h : Dispatches s s') : Transition s (.dispatch due) s'
  | wakes (i w : Nat) (hd : s.dispatcher = .pushed i) (hw : s.workers[w]? = some .asleep) :
      Transition s (.notify w) ((s.goes w .locking).sends (.visiting (i + 1)))
  | unheard (i w : Nat) (hd : s.dispatcher = .pushed i) (hw : WorkerPhase.asleep ∉ s.workers) :
      Transition s (.notify w) (s.sends (.visiting (i + 1)))
  | work (w : Nat) (s' : TickScheduler) (h : Works s w s') : Transition s (.work w) s'
  | wake (w : Nat) (hw : s.workers[w]? = some .asleep) : Transition s (.wake w) (s.goes w .locking)
  | starts (hr : s.running = false) (hidle : s.stopper = .idle) :
      Transition s .start { s with running := true, workers := List.replicate s.numWorkers .locking, dispatcher := .looping }
  | started (hr : s.running = true) : Transition s .start s
  | clears (hr : s.running = true) (hidle : s.stopper = .idle) : Transition s .stop { s with running := false, stopper := .notifying }
  | stopped (hr : s.running = false) (hidle : s.stopper = .idle) : Transition s .stop s
  | notifies (hs : s.stopper = .notifying) : Transition s .stop { s.notifyAll with stopper := .joining }
  | joins (hs : s.stopper = .joining) (hd : s.dispatcher = .ended) (hw : ∀ p ∈ s.workers, p = .ended) :
      Transition s .stop { s with workers := [], stopper := .idle }
  | snapshot : Transition s .snapshot { s with statExecuted := 0, statSkipped := 0, reported := s.reported + s.statExecuted }

theorem step_cases {l : Label} (h : s.step l = some s') : Transition s l s' := by
  cases l with
  | dispatch due => exact .dispatch due s' (dispatch_cases h)
  | notify w =>
    simp only [step] at h
    split at h
    · rename_i i hd
      obtain ⟨t, ht, rfl⟩ := Option.map_eq_some_iff.1 h
      simp only [wakesOne] at ht
      split at ht
      · cases ht
        exact .wakes i w hd ‹_›
      · split at ht
        · rename_i hall
          cases ht
          refine .unheard i w hd fun hmem => ?_
          simpa using List.all_eq_true.1 hall _ hmem
        · cases ht
    · cases h
  | work w => exact .work w s' (work_cases h)
  | wake w =>
    simp only [step] at h
    split at h
    · cases h
      exact .wake w ‹_›
    · cases h
  | start =>
    simp only [step, start] at h
    split at h
    · cases h
      exact .started ‹_›
    · rename_i hr
      split at h
      · cases h
        exact .starts (by simpa using hr) ‹_›
      · cases h
  | stop =>
    simp only [step, stop] at h
    split at h
    · rename_i hidle
      split at h
      · cases h
        exact .clears ‹_› hidle
      · rename_i hr
        cases h
        exact .stopped (by simpa using hr) hidle
    · cases h
      exact .notifies ‹_›
    · split at h
      · rename_i hs hboth
        cases h
        exact .joins hs hboth.1 fun p hp => by simpa using List.all_eq_true.1 hboth.2 p hp
      · cases h
  | snapshot =>
    cases h
    exact .snapshot

end

/-! ## The ledger of the ticks -/

/-- The entries that are claimed: by the dispatcher, on the queue, or with a worker. -/
def claimed (s : TickScheduler) : List Nat := s.dispatcher.claims ++ (s.atWork ++ s.queue).map Tick.entry

/-- Where the ticks are. -/
structure Ledger (s : TickScheduler) : Prop where
  flags : ∀ i, s.claimed.count i = if s.inFlight[i]? = some true then 1 else 0
  pushed : (s.executed ++ s.calling ++ s.queue).Perm s.pushed
  counted : s.pushed.length = s.reported + s.statExecuted + s.inHand.length + s.queue.length
  tickets : s.pushed.map Tick.ticket = List.range s.pushed.length

section
variable {s s' : TickScheduler} {w : Nat} {p p' : WorkerPhase} {t : Tick} {l : Label}

theorem filterMap_goes (p' : WorkerPhase) (f : WorkerPhase → Option Tick) (hp : s.workers[w]? = some p) :
    ((f p).toList ++ (s.goes w p').workers.filterMap f).Perm ((f p').toList ++ s.workers.filterMap f) :=
  Lists.filterMap_set_perm f hp

theorem runs_of_tick_none (h : p.tick = none) : p.runs = none ∧ p.calls = none := by
  cases p with
  | executing t | counting t | clearing t => cases h
  | _ => exact ⟨rfl, rfl⟩

/-- The workers have the same ticks in hand. -/
structure SameTicks (s s' : TickScheduler) : Prop where
  taken : s'.atWork.Perm s.atWork
  held : s'.inHand.Perm s.inHand
  called : s'.calling.Perm s.calling

theorem SameTicks.of_workers (h : s'.workers = s.workers) : SameTicks s s' := by
  constructor
  · rw [atWork, atWork, h]
  · rw [inHand, inHand, h]
  · rw [calling, calling, h]

/-- A worker without a tick goes where it has none. -/
theorem SameTicks.goes (hp : s.workers[w]? = some p) (h : p.tick = none) (h' : p'.tick = none) : SameTicks s (s.goes w p') where
  taken := by simpa [atWork, h, h'] using filterMap_goes p' WorkerPhase.tick hp
  held := by simpa [inHand, runs_of_tick_none h, runs_of_tick_none h'] using filterMap_goes p' WorkerPhase.runs hp
  called := by simpa [calling, runs_of_tick_none h, runs_of_tick_none h'] using filterMap_goes p' WorkerPhase.calls hp

theorem Ledger.same (h : Ledger s) (hw : SameTicks s s') (hf : s'.inFlight = s.inFlight) (hq : s'.queue = s.queue)
    (hd : s'.dispatcher.claims = s.dispatcher.claims) (hpushed : s'.pushed = s.pushed) (hex : s'.executed = s.executed)
    (hsum : s'.reported + s'.statExecuted = s.reported + s.statExecuted) : Ledger s' where
  flags i := by
    rw [hf, ← h.flags i]
    refine List.Perm.count_eq ?_ i
    rw [claimed, claimed, hd, hq]
    exact ((hw.taken.append_right _).map _).append_left _
  pushed := by
    rw [hpushed, hex, hq]
    exact ((hw.called.append_left _).append_right _).trans h.pushed
  counted := by rw [hpushed, hsum, hq, hw.held.length_eq, h.counted]
  tickets := by rw [hpushed, h.tickets]

theorem Ledger.boot (numWorkers entries : Nat) : Ledger (boot numWorkers entries) where
  flags i := by
    have hno : (List.replicate entries false)[i]? ≠ some true := by
      rw [List.getElem?_replicate]
      split <;> simp
    simp [claimed, TickScheduler.boot, DispatcherPhase.claims, atWork, hno]
  pushed := by simp [TickScheduler.boot, calling]
  counted := by simp [TickScheduler.boot, inHand]
  tickets := by simp [TickScheduler.boot]

theorem Ledger.dispatches (h : Ledger s) (hs : Dispatches s s') : Ledger s' := by
  cases hs with
  | sends d hnow hquiet hd hended hstopped => exact h.same (.of_workers rfl) rfl rfl (by rw [hnow]; exact hd) rfl rfl rfl
  | skips i hdue htaken => exact h.same (.of_workers rfl) rfl rfl (by rw [hdue]; rfl) rfl rfl rfl
  | claims i hdue hfree =>
    refine ⟨fun j => ?_, h.pushed, h.counted, h.tickets⟩
    have hj := h.flags j
    have hlt : i < s.inFlight.length := (List.getElem?_eq_some_iff.1 hfree).1
    simp only [claimed, hdue, DispatcherPhase.claims, List.nil_append] at hj
    simp only [claimed, DispatcherPhase.claims, List.getElem?_set]
    by_cases hij : i = j
    · subst hij
      rw [if_neg (by simp [hfree])] at hj
      simpa [atWork, sends, hlt] using hj
    · simpa [atWork, sends, hij] using hj
  | pushes i hwon hmutex =>
    refine ⟨fun j => ?_, ?_, ?_, ?_⟩
    · refine Eq.trans ?_ (h.flags j)
      refine List.Perm.count_eq ?_ j
      simp only [claimed, hwon, DispatcherPhase.claims, atWork, sends, List.nil_append, List.map_append, List.map_cons, List.map_nil,
        List.singleton_append, ← List.append_assoc]
      exact List.perm_append_singleton _ _
    · simp only [calling, sends, ← List.append_assoc]
      exact h.pushed.append_right _
    · have := h.counted
      simp only [inHand, sends] at this ⊢
      simp only [List.length_append, List.length_singleton]
      omega
    · simp [List.range_succ, h.tickets]

theorem Ledger.works (h : Ledger s) (hs : Works s w s') : Ledger s' := by
  cases hs with
  | goes p p' hp hnext => exact h.same (.goes hp (by cases hnext <;> rfl) (by cases hnext <;> rfl)) rfl rfl rfl rfl rfl rfl
  | pops t rest hp hq =>
    have htick := filterMap_goes (.executing t) WorkerPhase.tick hp
    have hruns := filterMap_goes (.executing t) WorkerPhase.runs hp
    have hcalls := filterMap_goes (.executing t) WorkerPhase.calls hp
    simp only [WorkerPhase.tick, WorkerPhase.runs, WorkerPhase.calls, Option.toList_none, Option.toList_some, List.nil_append,
      List.singleton_append] at htick hruns hcalls
    refine ⟨fun j => ?_, ?_, ?_, h.tickets⟩
    · refine Eq.trans ?_ (h.flags j)
      refine List.Perm.count_eq (List.Perm.append_left _ (List.Perm.map _ ?_)) j
      rw [hq]
      exact (htick.append_right rest).trans (List.perm_middle.symm)
    · refine List.Perm.trans ?_ h.pushed
      rw [hq, List.append_assoc, List.append_assoc]
      exact ((hcalls.append_right rest).trans (List.perm_middle.symm)).append_left _
    · have hlen := hruns.length_eq
      have hcount := h.counted
      simp only [hq, List.length_cons] at hlen hcount
      simp only [inHand, goes] at hlen hcount ⊢
      omega
  | executes t hp =>
    have htick := filterMap_goes (.counting t) WorkerPhase.tick hp
    have hruns := filterMap_goes (.counting t) WorkerPhase.runs hp
    have hcalls := filterMap_goes (.counting t) WorkerPhase.calls hp
    simp only [WorkerPhase.tick, WorkerPhase.runs, WorkerPhase.calls, Option.toList_none, Option.toList_some, List.nil_append,
      List.singleton_append, List.perm_cons] at htick hruns hcalls
    refine ⟨fun j => ?_, ?_, ?_, h.tickets⟩
    · refine Eq.trans ?_ (h.flags j)
      exact List.Perm.count_eq (List.Perm.append_left _ (List.Perm.map _ (htick.append_right _))) j
    · refine List.Perm.trans ?_ h.pushed
      refine List.Perm.append_right _ ?_
      rw [List.append_assoc]
      exact hcalls.append_left _
    · have hlen := hruns.length_eq
      have hcount := h.counted
      simp only [inHand, goes] at hlen hcount ⊢
      omega
  | counts t hp =>
    have htick := filterMap_goes (.clearing t) WorkerPhase.tick hp
    have hruns := filterMap_goes (.clearing t) WorkerPhase.runs hp
    have hcalls := filterMap_goes (.clearing t) WorkerPhase.calls hp
    simp only [WorkerPhase.tick, WorkerPhase.runs, WorkerPhase.calls, Option.toList_none, Option.toList_some, List.nil_append,
      List.singleton_append, List.perm_cons] at htick hruns hcalls
    refine ⟨fun j => ?_, ?_, ?_, h.tickets⟩
    · refine Eq.trans ?_ (h.flags j)
      exact List.Perm.count_eq (List.Perm.append_left _ (List.Perm.map _ (htick.append_right _))) j
    · exact ((hcalls.append_left _).append_right _).trans h.pushed
    · have hlen := hruns.length_eq
      have hcount := h.counted
      simp only [List.length_cons] at hlen
      simp only [inHand, goes] at hlen hcount ⊢
      omega
  | clears t hp =>
    have htick := filterMap_goes .locking WorkerPhase.tick hp
    have hruns := filterMap_goes .locking WorkerPhase.runs hp
    have hcalls := filterMap_goes .locking WorkerPhase.calls hp
    simp only [WorkerPhase.tick, WorkerPhase.runs, WorkerPhase.calls, Option.toList_none, Option.toList_some, List.nil_append,
      List.singleton_append] at htick hruns hcalls
    refine ⟨fun j => ?_, ?_, ?_, h.tickets⟩
    · have hcount : s.claimed.count j = ((s.goes w .locking).claimed.count j) + if t.entry = j then 1 else 0 := by
        have hperm := (htick.append_right s.queue).map Tick.entry
        simp only [List.cons_append, List.map_cons] at hperm
        rw [claimed, List.count_append, atWork, ← hperm.count_eq j, List.count_cons, claimed, List.count_append]
        simp [atWork, Nat.add_assoc]
      have hj := h.flags j
      rw [hcount] at hj
      simp only [claimed, atWork, goes] at hj ⊢
      rw [List.getElem?_set]
      by_cases hij : t.entry = j
      · have hzero := Nat.le_of_eq hj
        rw [if_pos hij] at hzero ⊢
        rw [if_neg (by split <;> simp)]
        split at hzero <;> omega
      · rw [if_neg hij] at hj ⊢
        exact hj
    · exact ((hcalls.append_left _).append_right _).trans h.pushed
    · have hlen := hruns.length_eq
      have hcount := h.counted
      simp only [inHand, goes] at hlen hcount ⊢
      omega

end

/-! ## The threads -/

/-- What a worker in this phase has seen and nobody has changed since. -/
def Sees (running : Bool) (queue : List Tick) : WorkerPhase → Prop
  | .testing | .turningIn => queue = []
  | .up => running = false ∨ queue ≠ []
  | .popping => queue ≠ []
  | .ended => running = false
  | _ => True

/-- One worker at a time holds the mutex; a push is not lost on the workers that sleep. -/
structure Threads (s : TickScheduler) : Prop where
  alone : ∀ (v w : Nat) (p q : WorkerPhase), s.workers[v]? = some p → s.workers[w]? = some q →
    p.holdsMutex = true → q.holdsMutex = true → v = w
  sees : ∀ p ∈ s.workers, Sees s.running s.queue p
  heard : WorkerPhase.asleep ∈ s.workers → s.queue.length ≤ s.workers.countP WorkerPhase.isIdle + s.dispatcher.notifies
  idle : s.running = false → s.stopper = .idle → s.workers = [] ∧ s.dispatcher = .ended
  stopping : s.stopper ≠ .idle → s.running = false
  crew : s.running = true → s.workers ≠ []
  hired : 0 < s.numWorkers

section
variable {s s' : TickScheduler} {w v : Nat} {p p' q : WorkerPhase} {l : Label} {running : Bool} {queue queue' : List Tick}

theorem not_holds_of_mutexFree (h : s.mutexFree = true) (hp : s.workers[w]? = some p) : p.holdsMutex = false := by
  simpa using List.all_eq_true.1 h p (List.mem_of_getElem? hp)

/-- The queue changes under the mutex. -/
theorem Sees.of_not_holds (h : Sees running queue p) (hp : p.holdsMutex = false) : Sees running queue' p := by
  cases p with
  | peeking | testing | turningIn | up | popping => cases hp
  | _ => exact h

/-- Nothing that a worker has seen is undone by `Stop`. -/
theorem Sees.stopped (h : Sees running queue p) : Sees false queue p := by
  cases p with
  | up => exact Or.inl rfl
  | ended => rfl
  | _ => exact h

theorem getElem?_goes (hv : (s.goes w p').workers[v]? = some q) : (v = w ∧ q = p') ∨ (v ≠ w ∧ s.workers[v]? = some q) := by
  rw [goes_workers, List.getElem?_set] at hv
  split at hv
  · rename_i hwv
    split at hv
    · cases hv
      exact Or.inl ⟨hwv.symm, rfl⟩
    · cases hv
  · rename_i hwv
    exact Or.inr ⟨fun h => hwv h.symm, hv⟩

theorem countP_goes (p' : WorkerPhase) (hp : s.workers[w]? = some p) : (s.goes w p').workers.countP WorkerPhase.isIdle + (if p.isIdle then 1 else 0) =
    s.workers.countP WorkerPhase.isIdle + if p'.isIdle then 1 else 0 := by
  have hcount := (Lists.cons_set_perm (b := p') hp).countP_eq WorkerPhase.isIdle
  rwa [List.countP_cons, List.countP_cons] at hcount

theorem mem_goes (hp : q ∈ (s.goes w p').workers) : q = p' ∨ q ∈ s.workers :=
  (List.mem_or_eq_of_mem_set hp).symm

/-- Only a worker that holds the mutex, or one that takes it when nobody does, goes where it is held. -/
theorem Threads.alone_goes (h : Threads s) (p' : WorkerPhase) (hp : s.workers[w]? = some p)
    (hkeeps : p'.holdsMutex = true → p.holdsMutex = true ∨ s.mutexFree = true) (u v : Nat) (q r : WorkerPhase)
    (hu : (s.goes w p').workers[u]? = some q) (hv : (s.goes w p').workers[v]? = some r)
    (hq : q.holdsMutex = true) (hr : r.holdsMutex = true) : u = v := by
  have hother : ∀ {x : Nat} {a : WorkerPhase}, s.workers[x]? = some a → a.holdsMutex = true → p'.holdsMutex = true → w = x := by
    intro x a hx ha hp'
    obtain hheld | hfree := hkeeps hp'
    · exact h.alone w x p a hp hx hheld ha
    · rw [not_holds_of_mutexFree hfree hx] at ha
      cases ha
  obtain ⟨rfl, rfl⟩ | ⟨-, hu'⟩ := getElem?_goes hu
  · obtain ⟨hvu, -⟩ | ⟨-, hv'⟩ := getElem?_goes hv
    · exact hvu.symm
    · exact hother hv' hr hq
  · obtain ⟨rfl, rfl⟩ | ⟨-, hv'⟩ := getElem?_goes hv
    · exact (hother hu' hq hr).symm
    · exact h.alone u v q r hu' hv' hq hr

/-- A worker goes on. -/
theorem Threads.goes (h : Threads s) (p' : WorkerPhase) (hp : s.workers[w]? = some p)
    (hkeeps : p'.holdsMutex = true → p.holdsMutex = true ∨ s.mutexFree = true) (hsees : Sees s.running s.queue p')
    (hheard : (p' ≠ .asleep ∧ (p.isIdle = true → p'.isIdle = true)) ∨ s.queue = []) : Threads (s.goes w p') where
  alone := h.alone_goes p' hp hkeeps
  sees q hq := by
    obtain rfl | hq := mem_goes hq
    · exact hsees
    · exact h.sees q hq
  heard hasleep := by
    obtain ⟨hne, hidle⟩ | hnil := hheard
    · have hbefore := h.heard ((mem_goes hasleep).resolve_left (Ne.symm hne))
      have hcount := countP_goes p' hp
      rw [goes_queue, goes_dispatcher]
      split at hcount
      · rw [if_pos (hidle ‹_›)] at hcount
        omega
      · omega
    · simp [hnil]
  idle hr hs := by
    have hnone := (h.idle hr hs).1
    rw [hnone] at hp
    simp at hp
  stopping := h.stopping
  crew hr := by
    rw [goes_workers]
    simpa using h.crew hr
  hired := h.hired

theorem Threads.boot (numWorkers entries : Nat) : Threads (boot numWorkers entries) where
  alone := by simp [TickScheduler.boot]
  sees := by simp [TickScheduler.boot]
  heard := by simp [TickScheduler.boot]
  idle := fun _ _ => ⟨rfl, rfl⟩
  stopping := by simp [TickScheduler.boot]
  crew := by simp [TickScheduler.boot]
  hired := by
    simp only [TickScheduler.boot]
    split <;> omega

theorem Threads.dispatches (h : Threads s) (hs : Dispatches s s') : Threads s' := by
  cases hs with
  | sends d hnow hquiet hd hended hstopped =>
    refine ⟨h.alone, h.sees, fun hasleep => ?_, fun hr hidle => absurd (h.idle hr hidle).2 hended, h.stopping, h.crew, h.hired⟩
    exact Nat.le_trans (h.heard hasleep) (by rw [hquiet]; exact Nat.le_add_right _ _)
  | claims i hdue hfree =>
    refine ⟨h.alone, h.sees, fun hasleep => ?_, fun hr hidle => ?_, h.stopping, h.crew, h.hired⟩
    · simpa [hdue, DispatcherPhase.notifies, TickScheduler.sends] using h.heard hasleep
    · have := (h.idle hr hidle).2
      rw [hdue] at this
      cases this
  | skips i hdue htaken =>
    refine ⟨h.alone, h.sees, fun hasleep => ?_, fun hr hidle => ?_, h.stopping, h.crew, h.hired⟩
    · simpa [hdue, DispatcherPhase.notifies, TickScheduler.sends] using h.heard hasleep
    · have := (h.idle hr hidle).2
      rw [hdue] at this
      cases this
  | pushes i hwon hmutex =>
    refine ⟨h.alone, fun p hp => ?_, fun hasleep => ?_, fun hr hidle => ?_, h.stopping, h.crew, h.hired⟩
    · obtain ⟨w, hw⟩ := List.getElem?_of_mem hp
      exact (h.sees p hp).of_not_holds (not_holds_of_mutexFree hmutex hw)
    · have hbefore := h.heard hasleep
      simp only [hwon, DispatcherPhase.notifies] at hbefore ⊢
      simp only [sends, List.length_append, List.length_singleton]
      omega
    · have := (h.idle hr hidle).2
      rw [hwon] at this
      cases this

theorem Threads.works (h : Threads s) (hs : Works s w s') : Threads s' := by
  cases hs with
  | goes p p' hp hnext =>
    have hsaw := h.sees p (List.mem_of_getElem? hp)
    cases hnext with
    | locks hmutex => exact h.goes _ hp (fun _ => Or.inr hmutex) trivial (Or.inl ⟨by simp, fun _ => rfl⟩)
    | nothing hq => exact h.goes _ hp (fun _ => Or.inl rfl) hq (Or.inr hq)
    | something hq => exact h.goes _ hp (fun _ => Or.inl rfl) (Or.inr hq) (Or.inl ⟨by simp, fun _ => rfl⟩)
    | runs hr => exact h.goes _ hp (fun _ => Or.inl rfl) hsaw (Or.inr hsaw)
    | stopped hr => exact h.goes _ hp (fun _ => Or.inl rfl) (Or.inl hr) (Or.inr hsaw)
    | sleeps => exact h.goes _ hp (fun hno => by cases hno) trivial (Or.inr hsaw)
    | ends hr hq => exact h.goes _ hp (fun hno => by cases hno) hr (Or.inr hq)
    | takes hor =>
      have hq : s.queue ≠ [] := by
        obtain hr | hq := hor
        · exact hsaw.resolve_left (by simp [hr])
        · exact hq
      exact h.goes _ hp (fun _ => Or.inl rfl) hq (Or.inl ⟨by simp, fun _ => rfl⟩)
  | pops t rest hp hq =>
    have halone := h.alone_goes (.executing t) hp (fun hno => by cases hno)
    refine ⟨halone, fun q hmem => ?_, fun hasleep => ?_, fun hr hs => ?_, h.stopping, fun hr => ?_, h.hired⟩
    · obtain ⟨v, hv⟩ := List.getElem?_of_mem hmem
      obtain ⟨-, rfl⟩ | ⟨hne, hv⟩ := getElem?_goes hv
      · trivial
      · refine (h.sees q (List.mem_of_getElem? hv)).of_not_holds ?_
        by_contra hheld
        exact hne (h.alone v w q .popping hv hp (by simpa using hheld) rfl)
    · have hbefore := h.heard ((mem_goes hasleep).resolve_left (by simp))
      have hcount : (s.goes w (.executing t)).workers.countP WorkerPhase.isIdle + 1 = s.workers.countP WorkerPhase.isIdle :=
        countP_goes _ hp
      rw [hq, List.length_cons] at hbefore
      simp only [TickScheduler.goes] at hcount ⊢
      omega
    · have hnone := (h.idle hr hs).1
      rw [hnone] at hp
      simp at hp
    · simpa [TickScheduler.goes] using h.crew hr
  | executes t hp =>
    have hgoes := h.goes (.counting t) hp (fun hno => by cases hno) trivial (Or.inl ⟨by simp, fun hno => by cases hno⟩)
    exact ⟨hgoes.alone, hgoes.sees, hgoes.heard, hgoes.idle, hgoes.stopping, hgoes.crew, hgoes.hired⟩
  | counts t hp =>
    have hgoes := h.goes (.clearing t) hp (fun hno => by cases hno) trivial (Or.inl ⟨by simp, fun hno => by cases hno⟩)
    exact ⟨hgoes.alone, hgoes.sees, hgoes.heard, hgoes.idle, hgoes.stopping, hgoes.crew, hgoes.hired⟩
  | clears t hp =>
    have hgoes := h.goes .locking hp (fun hno => by cases hno) trivial (Or.inl ⟨by simp, fun hno => by cases hno⟩)
    exact ⟨hgoes.alone, hgoes.sees, hgoes.heard, hgoes.idle, hgoes.stopping, hgoes.crew, hgoes.hired⟩

end

/-! ## Every run -/

/-- What holds in every state. -/
structure Inv (s : TickScheduler) : Prop where
  ledger : Ledger s
  threads : Threads s

section
variable {s s' : TickScheduler} {w : Nat} {p : WorkerPhase} {l : Label}

theorem SameTicks.sends (h : SameTicks s s') (d : DispatcherPhase) : SameTicks s (s'.sends d) := ⟨h.taken, h.held, h.called⟩

theorem woken_holdsMutex (p : WorkerPhase) : p.woken.holdsMutex = p.holdsMutex := by
  cases p <;> rfl

theorem Sees.woken {running : Bool} {queue : List Tick} (h : Sees running queue p) : Sees running queue p.woken := by
  cases p <;> exact h

/-- `notify_all`. -/
theorem SameTicks.notifyAll : SameTicks s s.notifyAll := by
  have hsame : ∀ f : WorkerPhase → Option Tick, (∀ p, f p.woken = f p) → (s.workers.map WorkerPhase.woken).filterMap f = s.workers.filterMap f := by
    intro f hf
    rw [List.filterMap_map]
    exact List.filterMap_congr fun p _ => hf p
  constructor
  · exact List.Perm.of_eq (hsame WorkerPhase.tick fun p => by cases p <;> rfl)
  · exact List.Perm.of_eq (hsame WorkerPhase.runs fun p => by cases p <;> rfl)
  · exact List.Perm.of_eq (hsame WorkerPhase.calls fun p => by cases p <;> rfl)

theorem not_asleep_of_woken : WorkerPhase.asleep ∉ s.notifyAll.workers := by
  intro hmem
  obtain ⟨p, -, hp⟩ := List.mem_map.1 hmem
  cases p <;> cases hp

/-- Workers without ticks in place of workers without ticks. -/
theorem SameTicks.of_idle (h : ∀ p ∈ s.workers, p.tick = none) (h' : ∀ p ∈ s'.workers, p.tick = none) : SameTicks s s' := by
  have hnone : ∀ {ws : List WorkerPhase}, (∀ p ∈ ws, p.tick = none) → ws.filterMap WorkerPhase.tick = [] ∧
      ws.filterMap WorkerPhase.runs = [] ∧ ws.filterMap WorkerPhase.calls = [] := by
    intro ws hws
    simp only [List.filterMap_eq_nil_iff]
    exact ⟨hws, fun p hp => (runs_of_tick_none (hws p hp)).1, fun p hp => (runs_of_tick_none (hws p hp)).2⟩
  constructor
  · rw [TickScheduler.atWork, TickScheduler.atWork, (hnone h).1, (hnone h').1]
  · rw [TickScheduler.inHand, TickScheduler.inHand, (hnone h).2.1, (hnone h').2.1]
  · rw [TickScheduler.calling, TickScheduler.calling, (hnone h).2.2, (hnone h').2.2]

theorem Ledger.step (h : Ledger s) (ht : Threads s) (hs : Transition s l s') : Ledger s' := by
  cases hs with
  | dispatch due s' hd => exact h.dispatches hd
  | wakes i w hd hw => exact h.same ((SameTicks.goes hw rfl rfl).sends _) rfl rfl (by rw [hd]; rfl) rfl rfl rfl
  | unheard i w hd hw => exact h.same (.of_workers rfl) rfl rfl (by rw [hd]; rfl) rfl rfl rfl
  | work w s' hw => exact h.works hw
  | wake w hw => exact h.same (SameTicks.goes hw rfl rfl) rfl rfl rfl rfl rfl rfl
  | starts hr hidle =>
    obtain ⟨hnone, hended⟩ := ht.idle hr hidle
    refine h.same (.of_idle (by simp [hnone]) fun p hp => ?_) rfl rfl (by rw [hended]; rfl) rfl rfl rfl
    rw [(List.mem_replicate.1 hp).2]
    rfl
  | started hr => exact h
  | clears hr hidle => exact h.same (.of_workers rfl) rfl rfl rfl rfl rfl rfl
  | stopped hr hidle => exact h
  | notifies hs => exact h.same ⟨SameTicks.notifyAll.taken, SameTicks.notifyAll.held, SameTicks.notifyAll.called⟩ rfl rfl rfl rfl rfl rfl
  | joins hs hd hw =>
    refine h.same (.of_idle (fun p hp => ?_) (by simp)) rfl rfl rfl rfl rfl rfl
    rw [hw p hp]
    rfl
  | snapshot => exact h.same (.of_workers rfl) rfl rfl rfl rfl rfl (by simp only [Nat.add_zero])

theorem Threads.step (h : Threads s) (hs : Transition s l s') : Threads s' := by
  cases hs with
  | dispatch due s' hd => exact h.dispatches hd
  | wakes i w hd hw =>
    have hgoes := h.goes .locking hw (fun hno => by cases hno) trivial (Or.inl ⟨by simp, fun hno => by cases hno⟩)
    refine ⟨hgoes.alone, hgoes.sees, fun hasleep => ?_, fun hr hidle => ?_, h.stopping, hgoes.crew, h.hired⟩
    · have hbefore := h.heard (List.mem_of_getElem? hw)
      have hcount : (s.goes w .locking).workers.countP WorkerPhase.isIdle = s.workers.countP WorkerPhase.isIdle + 1 :=
        countP_goes _ hw
      rw [hd] at hbefore
      simp only [DispatcherPhase.notifies] at hbefore ⊢
      simp only [TickScheduler.sends, TickScheduler.goes] at hcount ⊢
      omega
    · have := (h.idle hr hidle).2
      rw [hd] at this
      cases this
  | unheard i w hd hw =>
    refine ⟨h.alone, h.sees, fun hasleep => absurd hasleep hw, fun hr hidle => ?_, h.stopping, h.crew, h.hired⟩
    have := (h.idle hr hidle).2
    rw [hd] at this
    cases this
  | work w s' hw => exact h.works hw
  | wake w hw => exact h.goes .locking hw (fun hno => by cases hno) trivial (Or.inl ⟨by simp, fun hno => by cases hno⟩)
  | starts hr hidle =>
    refine ⟨fun v w p q hv hw hp hq => ?_, fun p hp => ?_, fun hasleep => ?_, ?_, fun hno => absurd hidle hno, fun _ => ?_, h.hired⟩
    · rw [List.eq_of_mem_replicate (List.mem_of_getElem? hv)] at hp
      cases hp
    · rw [List.eq_of_mem_replicate hp]
      trivial
    · cases List.eq_of_mem_replicate hasleep
    · simp
    · simpa using Nat.ne_of_gt h.hired
  | started hr => exact h
  | clears hr hidle => exact ⟨h.alone, fun p hp => (h.sees p hp).stopped, h.heard, by simp, by simp, by simp, h.hired⟩
  | stopped hr hidle => exact h
  | notifies hs =>
    have hr : s.running = false := h.stopping (by simp [hs])
    refine ⟨fun v w p q hv hw hp hq => ?_, fun p hp => ?_, fun hasleep => absurd hasleep not_asleep_of_woken, by simp, fun _ => hr,
      fun hrun => ?_, h.hired⟩
    · simp only [TickScheduler.notifyAll, List.getElem?_map, Option.map_eq_some_iff] at hv hw
      obtain ⟨p, hv, rfl⟩ := hv
      obtain ⟨q, hw, rfl⟩ := hw
      rw [woken_holdsMutex] at hp hq
      exact h.alone v w p q hv hw hp hq
    · obtain ⟨q, hq, rfl⟩ := List.mem_map.1 hp
      exact (h.sees q hq).woken
    · exact absurd (hr.symm.trans hrun) (by simp)
  | joins hs hd hw =>
    have hr : s.running = false := h.stopping (by simp [hs])
    exact ⟨by simp, by simp, by simp, fun _ _ => ⟨rfl, hd⟩, by simp, fun hrun => absurd (hr.symm.trans hrun) (by simp), h.hired⟩
  | snapshot => exact ⟨h.alone, h.sees, h.heard, h.idle, h.stopping, h.crew, h.hired⟩

theorem Inv.boot (numWorkers entries : Nat) : Inv (boot numWorkers entries) := ⟨.boot numWorkers entries, .boot numWorkers entries⟩

/-- **Every step keeps the invariant.** -/
theorem Inv.step (h : Inv s) (hs : s.step l = some s') : Inv s' :=
  ⟨h.ledger.step h.threads (step_cases hs), h.threads.step (step_cases hs)⟩

theorem Inv.of_run {numWorkers entries : Nat} {ls : List Label} (hr : run TickScheduler.step (TickScheduler.boot numWorkers entries) ls = some s) :
    Inv s :=
  run_invariant Inv (fun _ _ _ hinv (_ : True) hs => hinv.step hs) (.boot numWorkers entries) (.of_forall fun _ _ _ => trivial) hr

end

end TickScheduler

end Wasm

end OriginDB
