import Mathlib.Tactic.Common
/-!
# Replaying guarded assignments

A guarded assignment sets its cell to `target` when `guard` holds of the value there and does nothing
otherwise. A list of them is *live* from `l` when every guard holds in turn, which is how a log of
writes that all succeeded looks to one cell. Replaying such a log from any other value either leaves
that value alone or ends where the live run ended (`replay_eq_or_start`): the first assignment whose
guard holds brings the two runs together, and together they stay. So a log replayed over a state that
already contains it changes nothing (`replay_over_final`), with no condition on what the log does.
-/
namespace GuardedReplay

structure Assign (V : Type) where
  guard : V → Bool
  target : V

variable {V : Type}

def Assign.apply (o : Assign V) (v : V) : V := if o.guard v then o.target else v

/-- An assignment that never fires. -/
def Assign.skip (v : V) : Assign V := ⟨fun _ => false, v⟩

@[simp] theorem Assign.skip_apply (v w : V) : (Assign.skip w).apply v = v := rfl

theorem Assign.apply_pos {o : Assign V} {v : V} (h : o.guard v = true) : o.apply v = o.target := by
  simp [apply, h]

theorem Assign.apply_neg {o : Assign V} {v : V} (h : o.guard v = false) : o.apply v = v := by
  simp [apply, h]

def replay (v : V) (os : List (Assign V)) : V := os.foldl (fun v o => o.apply v) v

/-- Every assignment that is not a `skip` fires. -/
def Live : V → List (Assign V) → Prop
  | _, [] => True
  | v, o :: os => (o.guard v = true ∨ ∀ w, o.guard w = false) ∧ Live (o.apply v) os

@[simp] theorem replay_nil (v : V) : replay v [] = v := rfl

@[simp] theorem replay_cons (v : V) (o : Assign V) (os : List (Assign V)) :
    replay v (o :: os) = replay (o.apply v) os := rfl

theorem replay_append (v : V) (os ps : List (Assign V)) : replay v (os ++ ps) = replay (replay v os) ps := by
  simp [replay, List.foldl_append]

theorem live_append {v : V} {os ps : List (Assign V)} :
    Live v (os ++ ps) ↔ Live v os ∧ Live (replay v os) ps := by
  induction os generalizing v with
  | nil => simp [Live]
  | cons o os ih => simp [Live, ih, and_assoc]

/-- **Replay from elsewhere** either never changes the value or ends where the live run does. -/
theorem replay_eq_or_start {l : V} {os : List (Assign V)} (h : Live l os) (r : V) :
    replay r os = r ∨ replay r os = replay l os := by
  induction os generalizing l r with
  | nil => exact Or.inl rfl
  | cons o os ih =>
    obtain ⟨hg, hos⟩ := h
    simp only [replay_cons]
    by_cases hr : o.guard r = true
    · -- the guard holds on both sides, so both cells now hold the target
      have hl : o.guard l = true := by
        rcases hg with hg | hg
        · exact hg
        · rw [hg r] at hr; cases hr
      right
      simp [Assign.apply, hr, hl]
    · have hr' : o.apply r = r := by simp [Assign.apply, hr]
      rw [hr']
      exact ih hos r

/-- A log replayed over the state it produced changes nothing. -/
theorem replay_over_final {l : V} {os : List (Assign V)} (h : Live l os) :
    replay (replay l os) os = replay l os := by
  rcases replay_eq_or_start h (replay l os) with he | he <;> exact he

/-- A prefix of a live log replayed over the final state of the whole log leaves that state or goes
back to the prefix's own. -/
theorem replay_prefix_over_final {l : V} {os ps : List (Assign V)} (h : Live l (os ++ ps)) :
    replay (replay l (os ++ ps)) os = replay l (os ++ ps) ∨
    replay (replay l (os ++ ps)) os = replay l os :=
  replay_eq_or_start (live_append.1 h).1 _

end GuardedReplay
