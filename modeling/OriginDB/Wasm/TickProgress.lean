import Mathlib.Algebra.Order.Ring.Int
import Mathlib.Data.List.Nodup
import OriginDB.Wasm.TickScheduler
/-!
# Ticks are coalesced, and none is lost (`tick_scheduler.h:18-23`, `tick_scheduler.cpp:42-90`)

That a tick on the queue is executed is not a matter of one state: workers sleep, and one notification wakes one of them.
What brings the tick forward is a rank (`rank`): its place on the queue, and how far each worker is from popping.
A step of a worker brings it down, and while nobody stops the scheduler some worker can step, or the dispatcher is about to
wake one (`someone_helps`).
-/
namespace OriginDB

open Machine

namespace Wasm

/-- How far a worker in this phase is from its next pop. -/
def WorkerPhase.distance : WorkerPhase → Nat
  | .executing _ => 8
  | .counting _ => 7
  | .clearing _ => 6
  | .asleep => 5
  | .locking => 4
  | .peeking => 3
  | .up => 2
  | .popping => 1
  | .testing | .turningIn | .ended => 0

namespace TickScheduler

def Label.isWork (w : Nat) (l : Label) : Prop := l = .work w

def Label.isDispatch (l : Label) : Prop := (∃ due, l = .dispatch due) ∨ ∃ w, l = .notify w

/-- Nobody calls `Stop`. -/
def GoesOn (_ : TickScheduler) (l : Label) : Prop := l ≠ .stop

/-- The scheduler runs. -/
structure Awake (s : TickScheduler) : Prop extends Inv s where
  running : s.running = true

/-- How much is left to do before the tick is popped. -/
def rank (t : Tick) (s : TickScheduler) : Nat := (s.workers.map WorkerPhase.distance).sum + 8 * s.queue.idxOf t

/-- The worker can take a step, whatever is on the queue. -/
def Ready (s : TickScheduler) (w : Nat) : Prop :=
  ∃ p, s.workers[w]? = some p ∧ p ≠ .asleep ∧ p ≠ .ended ∧ (p = .locking → s.mutexFree = true)

section
variable {s s' : TickScheduler} {w : Nat} {p p' : WorkerPhase} {t : Tick} {l : Label}

theorem distance_goes (p' : WorkerPhase) (hp : s.workers[w]? = some p) : ((s.goes w p').workers.map WorkerPhase.distance).sum + p.distance =
    (s.workers.map WorkerPhase.distance).sum + p'.distance := by
  have hsum := ((Lists.cons_set_perm (b := p') hp).map WorkerPhase.distance).sum_nat
  simp only [List.map_cons, List.sum_cons] at hsum
  rw [goes_workers]
  omega

/-- Nobody stops the scheduler. -/
theorem running_step (hr : s.running = true) (hl : l ≠ .stop) (hs : Transition s l s') : s'.running = true := by
  cases hs with
  | dispatch due s' hd => cases hd <;> exact hr
  | work w s' hw => cases hw <;> exact hr
  | starts hr' _ => exact absurd (hr'.symm.trans hr) (by simp)
  | clears _ _ | stopped _ _ | notifies _ | joins _ _ _ => exact absurd rfl hl
  | _ => exact hr

theorem Awake.step (h : Awake s) (hl : l ≠ .stop) (hs : s.step l = some s') : Awake s' :=
  ⟨h.toInv.step hs, running_step h.running hl (step_cases hs)⟩

/-- What was pushed stays pushed. -/
theorem pushed_step (hs : Transition s l s') (ht : t ∈ s.pushed) : t ∈ s'.pushed := by
  cases hs with
  | dispatch due s' hd =>
    cases hd with
    | pushes i hwon hmutex => exact List.mem_append_left _ ht
    | _ => exact ht
  | work w s' hw => cases hw <;> exact ht
  | _ => exact ht

/-! ### Where a tick is -/

theorem Ledger.pushed_nodup (h : Ledger s) : s.pushed.Nodup := by
  refine List.Nodup.of_map Tick.ticket ?_
  rw [h.tickets]
  exact List.nodup_range

theorem Ledger.queue_nodup (h : Ledger s) : s.queue.Nodup :=
  (h.pushed.nodup_iff.2 h.pushed_nodup).of_append_right

/-- A tick that was pushed is executed, being executed or on the queue. -/
theorem Ledger.mem_pushed (h : Ledger s) : t ∈ s.pushed ↔ t ∈ s.executed ∨ t ∈ s.calling ∨ t ∈ s.queue := by
  rw [← h.pushed.mem_iff, List.mem_append, List.mem_append, or_assoc]

theorem exists_worker (ht : t ∈ s.calling) : ∃ w : Nat, s.workers[w]? = some (.executing t) := by
  obtain ⟨p, hp, hcalls⟩ := List.mem_filterMap.1 ht
  obtain ⟨w, hw⟩ := List.getElem?_of_mem hp
  cases p with
  | executing u =>
    cases hcalls
    exact ⟨w, hw⟩
  | _ => cases hcalls

/-! ### A tick on the queue is popped -/

theorem Awake.sees (h : Awake s) (hp : s.workers[w]? = some p) : Sees true s.queue p := by
  have := h.threads.sees p (List.mem_of_getElem? hp)
  rwa [h.running] at this

/-- A step of a worker brings every tick forward, or pops it. -/
theorem rank_work (h : Awake s) (ht : t ∈ s.queue) (hs : Works s w s') : t ∉ s'.queue ∨ (t ∈ s'.queue ∧ rank t s' < rank t s) := by
  cases hs with
  | goes p p' hp hnext =>
    refine Or.inr ⟨ht, ?_⟩
    have hsum := distance_goes p' hp
    have hsaw := h.sees hp
    have hlt : p'.distance < p.distance := by
      cases hnext with
      | nothing hq => simp [hq] at ht
      | runs hr | stopped hr | sleeps =>
        rw [hsaw] at ht
        simp at ht
      | ends hr hq => simp [hq] at ht
      | locks _ | something _ | takes _ => decide
    simp only [rank, goes_queue]
    omega
  | pops u rest hp hq =>
    have hnodup := h.ledger.queue_nodup
    rw [hq] at hnodup ht
    obtain ⟨hu, -⟩ := List.nodup_cons.1 hnodup
    by_cases htu : t = u
    · exact Or.inl (htu ▸ hu)
    · have hrest : t ∈ rest := (List.mem_cons.1 ht).resolve_left htu
      refine Or.inr ⟨hrest, ?_⟩
      have hsum := distance_goes (.executing u) hp
      simp only [WorkerPhase.distance, goes] at hsum
      simp only [rank, goes, hq, List.idxOf_cons_ne rest (Ne.symm htu)]
      omega
  | executes u hp =>
    refine Or.inr ⟨ht, ?_⟩
    have hsum := distance_goes (.counting u) hp
    simp only [WorkerPhase.distance, goes] at hsum
    simp only [rank, goes]
    omega
  | counts u hp =>
    refine Or.inr ⟨ht, ?_⟩
    have hsum := distance_goes (.clearing u) hp
    simp only [WorkerPhase.distance, goes] at hsum
    simp only [rank, goes]
    omega
  | clears u hp =>
    refine Or.inr ⟨ht, ?_⟩
    have hsum := distance_goes .locking hp
    simp only [WorkerPhase.distance, goes] at hsum
    simp only [rank, goes]
    omega

/-- A worker that is woken is nearer to its next pop. -/
theorem rank_woken (hp : s.workers[w]? = some .asleep) : rank t (s.goes w .locking) < rank t s := by
  have hsum := distance_goes .locking hp
  simp only [WorkerPhase.distance] at hsum
  simp only [rank, goes_queue]
  omega

/-- No step but a worker's own or one that wakes a worker touches the workers, and none sets the tick back. -/
theorem rank_step (h : Awake s) (ht : t ∈ s.queue) (hl : l ≠ .stop) (hs : Transition s l s') :
    t ∉ s'.queue ∨ (t ∈ s'.queue ∧ (rank t s' < rank t s ∨ (rank t s' = rank t s ∧ s'.workers = s.workers))) := by
  cases hs with
  | dispatch due s' hd =>
    cases hd with
    | pushes i hwon hmutex =>
      refine Or.inr ⟨List.mem_append_left _ ht, Or.inr ⟨?_, rfl⟩⟩
      simp only [rank, sends, List.idxOf_append_of_mem ht]
    | _ => exact Or.inr ⟨ht, Or.inr ⟨rfl, rfl⟩⟩
  | wakes i w hd hw => exact Or.inr ⟨ht, Or.inl (rank_woken hw)⟩
  | work w s' hw => exact (rank_work h ht hw).imp id fun hlt => ⟨hlt.1, Or.inl hlt.2⟩
  | wake w hw => exact Or.inr ⟨ht, Or.inl (rank_woken hw)⟩
  | starts hr _ => exact absurd (hr.symm.trans h.running) (by simp)
  | clears _ _ | stopped _ _ | notifies _ | joins _ _ _ => exact absurd rfl hl
  | unheard _ _ _ _ | started _ | snapshot => exact Or.inr ⟨ht, Or.inr ⟨rfl, rfl⟩⟩

/-- A worker that is ready has a step to take. -/
theorem Ready.enabled (h : Ready s w) (ht : t ∈ s.queue) : Enabled TickScheduler.step (Label.isWork w) s := by
  obtain ⟨p, hp, hasleep, hended, hlocking⟩ := h
  have hsome : (s.work w).isSome = true := by
    rw [work, hp]
    cases p with
    | locking => simp [next, hlocking rfl]
    | popping =>
      cases hq : s.queue with
      | nil => simp [hq] at ht
      | cons u rest => rfl
    | asleep => exact absurd rfl hasleep
    | ended => exact absurd rfl hended
    | _ => rfl
  obtain ⟨s', hs'⟩ := Option.isSome_iff_exists.1 hsome
  exact ⟨.work w, s', rfl, hs'⟩

/-- **The scheduler is never stuck on a tick.** A worker can step, or one sleeps that the dispatcher is about to wake. -/
theorem someone_helps (h : Awake s) (ht : t ∈ s.queue) :
    (∃ w, Ready s w) ∨ (WorkerPhase.asleep ∈ s.workers ∧ ∃ i, s.dispatcher = .pushed i) := by
  by_cases hfree : s.mutexFree = true
  · by_cases hup : ∃ p ∈ s.workers, p ≠ .asleep
    · obtain ⟨p, hp, hasleep⟩ := hup
      obtain ⟨w, hw⟩ := List.getElem?_of_mem hp
      refine Or.inl ⟨w, p, hw, hasleep, ?_, fun _ => hfree⟩
      rintro rfl
      exact absurd (h.sees hw) (by simp [Sees])
    · -- everybody sleeps, so nobody is on the way to the queue
      have hall : ∀ p ∈ s.workers, p = .asleep := fun p hp => by
        by_contra hne
        exact hup ⟨p, hp, hne⟩
      obtain ⟨p, hp⟩ := List.exists_mem_of_ne_nil _ (h.threads.crew h.running)
      have hasleep : WorkerPhase.asleep ∈ s.workers := hall p hp ▸ hp
      have hnone : s.workers.countP WorkerPhase.isIdle = 0 := by
        rw [List.countP_eq_zero]
        intro q hq
        rw [hall q hq]
        decide
      have hheard := h.threads.heard hasleep
      rw [hnone, Nat.zero_add] at hheard
      have hlen : 0 < s.queue.length := List.length_pos_of_mem ht
      refine Or.inr ⟨hasleep, ?_⟩
      cases hd : s.dispatcher with
      | pushed i => exact ⟨i, rfl⟩
      | _ =>
        rw [hd] at hheard
        simp only [DispatcherPhase.notifies] at hheard
        omega
  · have hheld : ∃ p ∈ s.workers, p.holdsMutex = true := by simpa [mutexFree] using hfree
    obtain ⟨p, hp, hholds⟩ := hheld
    obtain ⟨w, hw⟩ := List.getElem?_of_mem hp
    refine Or.inl ⟨w, p, hw, ?_, ?_, ?_⟩ <;> rintro rfl <;> cases hholds

/-- The dispatcher stays where it is until it has notified. -/
theorem dispatcher_stays {i : Nat} (hd : s.dispatcher = .pushed i) (hr : s.running = true) (hl : l ≠ .stop) (hs : Transition s l s')
    (hsame : s'.workers = s.workers) (hasleep : WorkerPhase.asleep ∈ s.workers) : s'.dispatcher = .pushed i := by
  cases hs with
  | dispatch due s' h =>
    cases h with
    | sends d hnow hquiet _ _ _ =>
      rw [hd] at hquiet
      cases hquiet
    | claims j hdue _ | skips j hdue _ | pushes j hdue _ =>
      rw [hd] at hdue
      cases hdue
  | wakes j w _ hw =>
    have hgone : (s.goes w .locking).workers[w]? = some .locking := by
      rw [goes_workers, List.getElem?_set_self (List.getElem?_eq_some_iff.1 hw).1]
    rw [sends_workers] at hsame
    rw [hsame, hw] at hgone
    cases hgone
  | unheard j w _ hw => exact absurd hasleep hw
  | work w s' h => cases h <;> exact hd
  | starts hr' _ => exact absurd (hr'.symm.trans hr) (by simp)
  | clears _ _ | stopped _ _ | notifies _ | joins _ _ _ => exact absurd rfl hl
  | _ => exact hd

/-- The reducer that a worker runs is run on, or has been run. -/
theorem executing_step (hp : s.workers[w]? = some (.executing t)) (hr : s.running = true) (hl : l ≠ .stop) (hs : Transition s l s') :
    s'.workers[w]? = some (.executing t) ∨ t ∈ s'.executed := by
  have hother : ∀ {v : Nat} {q : WorkerPhase} (q' : WorkerPhase), s.workers[v]? = some q → q ≠ .executing t →
      (s.goes v q').workers[w]? = some (.executing t) := by
    intro v q q' hv hq
    have hne : v ≠ w := by
      rintro rfl
      rw [hp] at hv
      cases hv
      exact hq rfl
    rw [goes_workers, List.getElem?_set_ne hne, hp]
  cases hs with
  | dispatch due s' h => cases h <;> exact Or.inl hp
  | wakes j v _ hv => exact Or.inl (hother _ hv (by simp))
  | wake v hv => exact Or.inl (hother _ hv (by simp))
  | work v s' h =>
    cases h with
    | goes q q' hv hnext => exact Or.inl (hother _ hv (by cases hnext <;> simp))
    | pops u rest hv hq => exact Or.inl (hother (.executing u) hv (by simp))
    | executes u hv =>
      by_cases hu : u = t
      · subst hu
        exact Or.inr (List.mem_append_right _ (List.mem_singleton_self u))
      · exact Or.inl (hother (.counting u) hv (by simpa using hu))
    | counts u hv => exact Or.inl (hother (.clearing u) hv (by simp))
    | clears u hv => exact Or.inl (hother .locking hv (by simp))
  | starts hr' _ => exact absurd (hr'.symm.trans hr) (by simp)
  | clears _ _ | stopped _ _ | notifies _ | joins _ _ _ => exact absurd rfl hl
  | _ => exact Or.inl hp

end

/-! ### A run without end -/

section
variable {s : Nat → TickScheduler} {l : Nat → Label} {t : Tick}

/-- The tick is off the queue. -/
def Popped (t : Tick) (s : TickScheduler) : Prop := Awake s ∧ t ∈ s.pushed ∧ t ∉ s.queue

/-- The tick is off the queue, or nearer to its pop than `k`. -/
def Brought (t : Tick) (k : Nat) (s : TickScheduler) : Prop := Popped t s ∨ ((Awake s ∧ t ∈ s.queue) ∧ rank t s < k)

/-- What a step does to a tick that waits. -/
theorem waiting_step {k : Nat} {s s' : TickScheduler} {l : Label} (h : Awake s) (ht : t ∈ s.queue) (hk : rank t s = k) (hl : l ≠ .stop)
    (hs : s.step l = some s') : Brought t k s' ∨ (Awake s' ∧ t ∈ s'.queue ∧ rank t s' = k ∧ s'.workers = s.workers) := by
  have hawake := h.step hl hs
  subst hk
  obtain hgone | ⟨hstill, hlt | ⟨heq, hworkers⟩⟩ := rank_step h ht hl (step_cases hs)
  · exact Or.inl (Or.inl ⟨hawake, pushed_step (step_cases hs) (h.ledger.mem_pushed.2 (Or.inr (Or.inr ht))), hgone⟩)
  · exact Or.inl (Or.inr ⟨⟨hawake, hstill⟩, hlt⟩)
  · exact Or.inr ⟨hawake, hstill, heq, hworkers⟩

/-- **A tick on the queue is popped.** -/
theorem popped_eventually (hx : Execution TickScheduler.step GoesOn s l) (hworkers : ∀ w, Fair TickScheduler.step (Label.isWork w) s l)
    (hdispatcher : Fair TickScheduler.step Label.isDispatch s l) (t : Tick) :
    LeadsTo s (fun u => Awake u ∧ t ∈ u.queue) (Popped t) := by
  refine leadsTo_of_rank (rank t) fun k n ⟨⟨hawake, ht⟩, hk⟩ => ?_
  obtain ⟨w, hready⟩ | ⟨hasleep, i, hd⟩ := someone_helps hawake ht
  · refine leadsTo_of_fair (P := fun u => Awake u ∧ t ∈ u.queue ∧ rank t u = k ∧ Ready u w) (Q := Brought t k) hx (hworkers w)
      ?_ ?_ ?_ n ⟨hawake, ht, hk, hready⟩
    · rintro u ⟨-, ht, -, hready⟩
      exact hready.enabled ht
    · rintro u m u' ⟨hawake, ht, hk, hready⟩ hl hs
      refine (waiting_step hawake ht hk hl hs).symm.imp (fun hsame => ?_) id
      obtain ⟨hawake', ht', hk', hworkers⟩ := hsame
      obtain ⟨p, hp, hno, hno', hfree⟩ := hready
      refine ⟨hawake', ht', hk', p, by rw [hworkers, hp], hno, hno', fun hlock => ?_⟩
      rw [mutexFree, hworkers]
      exact hfree hlock
    · rintro u m u' ⟨hawake, ht, hk, -⟩ rfl hs
      have hl : Label.work w ≠ .stop := by simp
      obtain hbrought | ⟨-, ht', hk', -⟩ := waiting_step hawake ht hk hl hs
      · exact hbrought
      · have hlt := (rank_work hawake ht (work_cases hs)).resolve_left fun hno => hno ht'
        omega
  · refine leadsTo_of_fair (P := fun u => Awake u ∧ t ∈ u.queue ∧ rank t u = k ∧ WorkerPhase.asleep ∈ u.workers ∧ u.dispatcher = .pushed i)
      (Q := Brought t k) hx hdispatcher ?_ ?_ ?_ n ⟨hawake, ht, hk, hasleep, hd⟩
    · rintro u ⟨-, -, -, hasleep, hd⟩
      obtain ⟨w, hw⟩ := List.getElem?_of_mem hasleep
      exact ⟨.notify w, (u.goes w .locking).sends (.visiting (i + 1)), Or.inr ⟨w, rfl⟩, by simp [TickScheduler.step, hd, wakesOne, hw]⟩
    · rintro u m u' ⟨hawake, ht, hk, hasleep, hd⟩ hl hs
      refine (waiting_step hawake ht hk hl hs).symm.imp (fun hsame => ?_) id
      obtain ⟨hawake', ht', hk', hworkers⟩ := hsame
      exact ⟨hawake', ht', hk', hworkers ▸ hasleep, dispatcher_stays hd hawake.running hl (step_cases hs) hworkers hasleep⟩
    · rintro u m u' ⟨hawake, ht, hk, hasleep, hd⟩ hmine hs
      have hl : m ≠ .stop := by
        rintro rfl
        obtain ⟨due, h⟩ | ⟨w, h⟩ := hmine <;> cases h
      obtain hbrought | ⟨-, -, -, hworkers⟩ := waiting_step hawake ht hk hl hs
      · exact hbrought
      · -- the notification would have been heard
        have hstill := dispatcher_stays hd hawake.running hl (step_cases hs) hworkers hasleep
        obtain ⟨due, rfl⟩ | ⟨w, rfl⟩ := hmine
        · simp [TickScheduler.step, dispatch, hd] at hs
        · cases step_cases hs with
          | wakes j w hd' hw => cases hstill
          | unheard j w hd' hw => cases hstill

/-- **A reducer that is called has run.** -/
theorem executed_eventually (hx : Execution TickScheduler.step GoesOn s l) (hworkers : ∀ w, Fair TickScheduler.step (Label.isWork w) s l)
    (t : Tick) : LeadsTo s (fun u => Awake u ∧ t ∈ u.calling) fun u => t ∈ u.executed := by
  rintro n ⟨hawake, ht⟩
  obtain ⟨w, hw⟩ := exists_worker ht
  refine leadsTo_of_fair (P := fun u => Awake u ∧ u.workers[w]? = some (.executing t)) (Q := fun u => t ∈ u.executed) hx
    (hworkers w) ?_ ?_ ?_ n ⟨hawake, hw⟩
  · rintro u ⟨-, hw⟩
    have hsome : (u.step (.work w)).isSome = true := by simp [TickScheduler.step, work, hw]
    obtain ⟨u', hu'⟩ := Option.isSome_iff_exists.1 hsome
    exact ⟨.work w, u', rfl, hu'⟩
  · rintro u m u' ⟨hawake, hw⟩ hl hs
    exact (executing_step hw hawake.running hl (step_cases hs)).imp (fun hw' => ⟨hawake.step hl hs, hw'⟩) id
  · rintro u m u' ⟨hawake, hw⟩ rfl hs
    simp only [TickScheduler.step, work, hw, Option.some.injEq] at hs
    subst hs
    simp

/-- A tick that was pushed is executed. -/
theorem pushed_eventually (hx : Execution TickScheduler.step GoesOn s l) (hworkers : ∀ w, Fair TickScheduler.step (Label.isWork w) s l)
    (hdispatcher : Fair TickScheduler.step Label.isDispatch s l) (t : Tick) :
    LeadsTo s (fun u => Awake u ∧ t ∈ u.pushed) fun u => t ∈ u.executed := by
  have hpopped : LeadsTo s (Popped t) fun u => t ∈ u.executed := by
    rintro n ⟨hawake, hpushed, hgone⟩
    obtain hdone | hcalling | hqueue := hawake.ledger.mem_pushed.1 hpushed
    · exact ⟨n, Nat.le_refl n, hdone⟩
    · exact executed_eventually hx hworkers t n ⟨hawake, hcalling⟩
    · exact absurd hqueue hgone
  rintro n ⟨hawake, hpushed⟩
  obtain hqueue | hgone := Decidable.em (t ∈ (s n).queue)
  · exact (popped_eventually hx hworkers hdispatcher t).trans hpopped n ⟨hawake, hqueue⟩
  · exact hpopped n ⟨hawake, hpushed, hgone⟩

end

/-! ### The contract -/

/-- What `tick_scheduler.h:18-23` promises of a state. -/
structure Coalesced (s : TickScheduler) : Prop where
  /-- An entry is on the queue or with a worker at most once. -/
  once : ((s.atWork ++ s.queue).map Tick.entry).Nodup
  /-- Its flag is set from the compare-and-swap of the dispatcher until a worker clears it. -/
  inFlight : ∀ i, s.inFlight[i]? = some true ↔ s.dispatcher = .won i ∨ i ∈ (s.atWork ++ s.queue).map Tick.entry
  /-- No tick is executed twice, or without being pushed. -/
  executed : s.executed.Nodup ∧ ∀ t ∈ s.executed, t ∈ s.pushed
  /-- Pushes are executed, running or queued. -/
  counted : s.pushed.length = s.reported + s.statExecuted + s.inHand.length + s.queue.length

theorem mem_claims {d : DispatcherPhase} {i : Nat} : i ∈ d.claims ↔ d = .won i := by
  cases d with
  | won j => simp [DispatcherPhase.claims, eq_comm]
  | _ => simp [DispatcherPhase.claims]

theorem Inv.coalesced {s : TickScheduler} (h : Inv s) : Coalesced s where
  once := by
    have hcount : s.claimed.Nodup := by
      refine List.nodup_iff_count_le_one.2 fun i => ?_
      rw [h.ledger.flags i]
      split <;> omega
    exact hcount.of_append_right
  inFlight i := by
    have hmem : i ∈ s.claimed ↔ s.inFlight[i]? = some true := by
      rw [← List.count_pos_iff, h.ledger.flags i]
      split <;> simp [*]
    rw [← hmem, claimed, List.mem_append, mem_claims]
  executed := by
    have hnodup := h.ledger.pushed.nodup_iff.2 h.ledger.pushed_nodup
    rw [List.append_assoc] at hnodup
    exact ⟨hnodup.of_append_left, fun t ht => h.ledger.mem_pushed.2 (Or.inl ht)⟩
  counted := h.ledger.counted

/-- **Ticks are coalesced, and none is lost.** In every state of every run; and as long as the workers and the dispatcher
keep running, every tick that is pushed is executed. -/
theorem ticks_coalesced (numWorkers entries : Nat) (ls : List Label) (u : TickScheduler)
    (hr : run TickScheduler.step (boot numWorkers entries) ls = some u) :
    Coalesced u ∧ ∀ (s : Nat → TickScheduler) (l : Nat → Label), s 0 = u → u.running = true →
      Execution TickScheduler.step GoesOn s l → (∀ w, Fair TickScheduler.step (Label.isWork w) s l) →
      Fair TickScheduler.step Label.isDispatch s l → ∀ n, ∀ t ∈ (s n).pushed, ∃ m, n ≤ m ∧ t ∈ (s m).executed := by
  have hinv := Inv.of_run hr
  refine ⟨hinv.coalesced, ?_⟩
  rintro s l rfl hrunning hx hworkers hdispatcher n t ht
  have hawake := hx.stays (P := Awake) (fun _ _ _ h hl hs => h.step hl hs) ⟨hinv, hrunning⟩ (Nat.zero_le n)
  exact pushed_eventually hx hworkers hdispatcher t n ⟨hawake, ht⟩

/-! A run without end: one worker, which sleeps, and one entry, whose tick has just been pushed. It is notified, executes
the tick and goes back to sleep; from then on the dispatcher goes round. -/

/-- Up to the push. -/
def untilPushed : List Label := .start :: List.replicate 4 (.work 0) ++ List.replicate 4 (.dispatch true)

def quietLabels (n : Nat) : Label := if n = 0 then .notify 0 else if n < 12 then .work 0 else .dispatch false

def quietStates : Nat → TickScheduler
  | 0 => (run TickScheduler.step (boot 1 1) untilPushed).getD (boot 1 1)
  | n + 1 => ((quietStates n).step (quietLabels n)).getD (quietStates n)

/-- What is computed of it: up to the push, the twelve steps of the worker, and once around. -/
theorem quiet_evaluated :
    (run TickScheduler.step (boot 1 1) untilPushed = some (quietStates 0) ∧ (quietStates 0).running = true ∧
      ⟨0, 0⟩ ∈ (quietStates 0).pushed) ∧
    (∀ n < 12, ((quietStates n).step (quietLabels n)).isSome = true) ∧
    (∀ j < 4, ((quietStates (12 + j)).step (.dispatch false)).isSome = true ∧ (quietStates (12 + j)).workers = [.asleep]) ∧
    quietStates 16 = quietStates 12 := by
  decide

theorem quietLabels_ge {n : Nat} (h : 12 ≤ n) : quietLabels n = .dispatch false := by
  rw [quietLabels, if_neg (by omega), if_neg (by omega)]

theorem quietStates_loop {n : Nat} (h : 12 ≤ n) : quietStates (n + 4) = quietStates n := by
  induction n, h using Nat.le_induction with
  | base => exact quiet_evaluated.2.2.2
  | succ n h ih =>
    rw [show n + 1 + 4 = (n + 4) + 1 from rfl, quietStates, ih, quietLabels_ge (by omega), quietStates, quietLabels_ge h]

/-- One of the four states in which the dispatcher goes round. -/
theorem quietStates_ge {n : Nat} (h : 12 ≤ n) : ∃ j < 4, quietStates n = quietStates (12 + j) := by
  induction n using Nat.strong_induction_on with
  | _ n ih =>
    by_cases hlt : n < 16
    · exact ⟨n - 12, by omega, congrArg quietStates (by omega)⟩
    · obtain ⟨j, hj, heq⟩ := ih (n - 4) (by omega) (by omega)
      refine ⟨j, hj, heq ▸ ?_⟩
      rw [← quietStates_loop (by omega : 12 ≤ n - 4)]
      exact congrArg quietStates (by omega)

theorem quiet_execution : Execution TickScheduler.step GoesOn quietStates quietLabels := by
  obtain ⟨-, hfirst, hround, -⟩ := quiet_evaluated
  intro n
  constructor
  · rw [GoesOn, quietLabels]
    split
    · simp
    · split <;> simp
  · have hsome : ((quietStates n).step (quietLabels n)).isSome = true := by
      by_cases hlt : n < 12
      · exact hfirst n hlt
      · obtain ⟨j, hj, heq⟩ := quietStates_ge (by omega : 12 ≤ n)
        rw [heq, quietLabels_ge (by omega)]
        exact (hround j hj).1
    obtain ⟨u, hu⟩ := Option.isSome_iff_exists.1 hsome
    rw [quietStates, hu, Option.getD_some]

theorem quiet_workers (w : Nat) : Fair TickScheduler.step (Label.isWork w) quietStates quietLabels := by
  intro n
  refine ⟨n + 12, by omega, Or.inr ?_⟩
  rintro ⟨l, u, rfl, hu⟩
  obtain ⟨j, hj, heq⟩ := quietStates_ge (by omega : 12 ≤ n + 12)
  have hasleep : (quietStates (12 + j)).workers = [.asleep] := (quiet_evaluated.2.2.1 j hj).2
  rw [heq, TickScheduler.step, work, hasleep] at hu
  cases w with
  | zero => cases hu
  | succ w => cases hu

theorem quiet_dispatcher : Fair TickScheduler.step Label.isDispatch quietStates quietLabels := by
  intro n
  refine ⟨n + 12, by omega, Or.inl (Or.inl ⟨false, quietLabels_ge (by omega)⟩)⟩

/-- The tick of that run is executed. -/
theorem ticks_coalesced_one : ∃ u, run TickScheduler.step (boot 1 1) untilPushed = some u ∧ Coalesced u ∧
    ∃ (s : Nat → TickScheduler) (l : Nat → Label), s 0 = u ∧ Execution TickScheduler.step GoesOn s l ∧
      ∃ m, ⟨0, 0⟩ ∈ (s m).executed := by
  obtain ⟨⟨hrun, hrunning, hpushed⟩, -⟩ := quiet_evaluated
  obtain ⟨hcoalesced, hexecuted⟩ := ticks_coalesced 1 1 untilPushed (quietStates 0) hrun
  obtain ⟨m, -, hm⟩ := hexecuted quietStates quietLabels rfl hrunning quiet_execution quiet_workers quiet_dispatcher 0 ⟨0, 0⟩ hpushed
  exact ⟨_, hrun, hcoalesced, quietStates, quietLabels, rfl, quiet_execution, m, hm⟩

end TickScheduler

end Wasm

end OriginDB
