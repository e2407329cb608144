import Mathlib.Tactic.Common
/-!
# Programs that throw

A program on a state ends normally or with an exception, and what it did to the state before it threw stays done:
`Throwing ε σ` is `ExceptT` over `StateM`, so a program is written with `throw` and `try … catch`. `exec` runs it.

Some programs attempt things that succeed or fail, and answer a failure with another attempt. `Tries` says which
attempts have to fail for the program to throw, and `Follows` that it throws exactly then.
-/

abbrev Throwing (ε σ : Type) := ExceptT ε (StateM σ)

namespace Throwing

variable {ε σ α β : Type}

/-- How the program ends, and the state it leaves. -/
def exec (m : Throwing ε σ α) (s : σ) : Except ε α × σ := StateT.run (ExceptT.run m) s

def throws (m : Throwing ε σ α) (s : σ) : Prop := ∃ e, (exec m s).1 = .error e

section
variable (s : σ)

@[simp] theorem exec_pure (a : α) : exec (pure a : Throwing ε σ α) s = (.ok a, s) := rfl

@[simp] theorem exec_throw (e : ε) : exec (throw e : Throwing ε σ α) s = (.error e, s) := rfl

@[simp] theorem exec_get : exec (get : Throwing ε σ σ) s = (.ok s, s) := rfl

@[simp] theorem exec_modify (f : σ → σ) : exec (modify f : Throwing ε σ PUnit) s = (.ok ⟨⟩, f s) := rfl

theorem exec_bind (m : Throwing ε σ α) (f : α → Throwing ε σ β) :
    exec (m >>= f) s = match exec m s with
      | (.ok a, t) => exec (f a) t
      | (.error e, t) => (.error e, t) := by
  show StateT.run (ExceptT.run (m >>= f)) s = _
  rw [ExceptT.run_bind, StateT.run_bind]
  unfold exec
  rcases StateT.run (ExceptT.run m) s with ⟨e | a, t⟩ <;> rfl

theorem exec_map (m : Throwing ε σ α) (f : α → β) :
    exec (f <$> m) s = match exec m s with
      | (.ok a, t) => (.ok (f a), t)
      | (.error e, t) => (.error e, t) := by
  rw [← bind_pure_comp, exec_bind]
  simp

theorem exec_tryCatch (m : Throwing ε σ α) (h : ε → Throwing ε σ α) :
    exec (tryCatch m h) s = match exec m s with
      | (.ok a, t) => (.ok a, t)
      | (.error e, t) => exec (h e) t := by
  unfold exec
  rw [ExceptT.run_tryCatch, StateT.run_bind]
  rcases StateT.run (ExceptT.run m) s with ⟨e | a, t⟩ <;> rfl

end

/-! ## Composition -/

section
variable {s t : σ} {m : Throwing ε σ α} {a : α} {e : ε}

theorem exec_bind_ok (h : exec m s = (.ok a, t)) (f : α → Throwing ε σ β) : exec (m >>= f) s = exec (f a) t := by
  rw [exec_bind, h]

theorem exec_bind_error (h : exec m s = (.error e, t)) (f : α → Throwing ε σ β) :
    exec (m >>= f) s = (.error e, t) := by
  rw [exec_bind, h]

theorem exec_tryCatch_ok (h : exec m s = (.ok a, t)) (r : ε → Throwing ε σ α) :
    exec (tryCatch m r) s = (.ok a, t) := by
  rw [exec_tryCatch, h]

theorem exec_tryCatch_error (h : exec m s = (.error e, t)) (r : ε → Throwing ε σ α) :
    exec (tryCatch m r) s = exec (r e) t := by
  rw [exec_tryCatch, h]

end

section
variable {s t : σ} {m : Throwing ε σ α}

theorem not_throws_iff : ¬ throws m s ↔ ∃ a t, exec m s = (.ok a, t) := by
  unfold throws
  rcases exec m s with ⟨e | a, t⟩ <;> simp

theorem throws_bind_ok {a : α} (h : exec m s = (.ok a, t)) (f : α → Throwing ε σ β) :
    throws (m >>= f) s ↔ throws (f a) t := by
  unfold throws
  rw [exec_bind_ok h]

/-- A program throws in its first part or, with what that leaves, in its second. -/
theorem throws_bind (f : α → Throwing ε σ β) :
    throws (m >>= f) s ↔ throws m s ∨ ∃ a t, exec m s = (.ok a, t) ∧ throws (f a) t := by
  rcases hm : exec m s with ⟨e | a, t⟩
  · simp [throws, exec_bind_error hm, hm]
  · rw [throws_bind_ok hm]
    simp [throws, hm]

theorem throws.bind (h : throws m s) (f : α → Throwing ε σ β) : throws (m >>= f) s := (throws_bind f).2 (.inl h)

end

/-! ## What a program leaves alone -/

/-- However it ends, the program relates the state before to the state after. -/
def Keeps (R : σ → σ → Prop) (m : Throwing ε σ α) : Prop := ∀ s, R s (exec m s).2

section
variable {R : σ → σ → Prop} {m : Throwing ε σ α}

theorem keeps_pure (hrefl : ∀ s, R s s) (a : α) : Keeps R (pure a : Throwing ε σ α) := fun s => hrefl s

theorem keeps_throw (hrefl : ∀ s, R s s) (e : ε) : Keeps R (throw e : Throwing ε σ α) := fun s => hrefl s

theorem Keeps.bind (htrans : ∀ s t u, R s t → R t u → R s u) (hm : Keeps R m) {f : α → Throwing ε σ β}
    (hf : ∀ a, Keeps R (f a)) : Keeps R (m >>= f) := by
  intro s
  have hs := hm s
  rcases hexec : exec m s with ⟨e | a, t⟩
  · rw [exec_bind_error hexec]
    rwa [hexec] at hs
  · rw [exec_bind_ok hexec]
    rw [hexec] at hs
    exact htrans s t _ hs (hf a t)

theorem Keeps.tryCatch (htrans : ∀ s t u, R s t → R t u → R s u) (hm : Keeps R m) {h : ε → Throwing ε σ α}
    (hh : ∀ e, Keeps R (h e)) : Keeps R (tryCatch m h) := by
  intro s
  have hs := hm s
  rcases hexec : exec m s with ⟨e | a, t⟩
  · rw [exec_tryCatch_error hexec]
    rw [hexec] at hs
    exact htrans s t _ hs (hh e t)
  · rw [exec_tryCatch_ok hexec]
    rwa [hexec] at hs

end

/-! ## Attempts -/

/-- The attempts that have to fail: none make the program throw, or all of `count` after the first `skipped`; in
`rows`, all of `count`, or else, when the very first succeeds, all of the `count'` after it. -/
inductive Tries where
  | never
  | row (skipped count : Nat)
  | rows (count count' : Nat)
deriving DecidableEq

namespace Tries

variable (answers : Nat → Bool)

/-- Do they fail, counting from attempt `n`? -/
def lost (n : Nat) : Tries → Prop
  | never => False
  | row skipped count => ∀ i < count, answers (n + skipped + i) = false
  | rows count count' =>
    if answers n = true then ∀ i < count', answers (n + 1 + i) = false else ∀ i < count, answers (n + i) = false

instance (n : Nat) : ∀ p : Tries, Decidable (p.lost answers n)
  | never => inferInstanceAs (Decidable False)
  | row skipped count => inferInstanceAs (Decidable (∀ i < count, answers (n + skipped + i) = false))
  | rows count count' => inferInstanceAs (Decidable
      (if answers n = true then ∀ i < count', answers (n + 1 + i) = false else ∀ i < count, answers (n + i) = false))

/-- The attempt after the last of them. -/
def next (n : Nat) : Tries → Nat
  | never => n
  | row skipped count => n + skipped + count
  | rows count count' => if answers n = true then n + 1 + count' else n + count

/-- One attempt more. -/
def reported : Tries → Tries
  | never => never
  | row skipped count => row skipped (count + 1)
  | rows count count' => rows (count + 1) (count' + 1)

variable {answers} {n : Nat}

@[simp] theorem lost_one : (row 0 1).lost answers n ↔ answers n = false := by simp [lost]

@[simp] theorem lost_two : (row 0 2).lost answers n ↔ answers n = false ∧ answers (n + 1) = false := by
  simp only [lost, Nat.forall_lt_succ_right, Nat.not_lt_zero, false_imp_iff, implies_true, true_and, Nat.add_zero]

theorem lost_reported (p : Tries) : p.reported.lost answers n ↔ p.lost answers n ∧ answers (p.next answers n) = false := by
  cases p with
  | never => simp [reported, lost]
  | row skipped count => simp only [reported, lost, next, Nat.forall_lt_succ_right]
  | rows count count' =>
    cases h : answers n <;>
      simp only [reported, lost, next, h, if_true, if_false, Bool.false_eq_true, Nat.forall_lt_succ_right]

theorem next_reported (p : Tries) (h : p ≠ never) : p.reported.next answers n = p.next answers n + 1 := by
  cases p with
  | never => exact absurd rfl h
  | row skipped count => rfl
  | rows count count' =>
    simp only [reported, next]
    split <;> omega

end Tries

/-- The program throws exactly when the attempts all fail, what it throws is `fine`, and it has made no more of them. -/
def Follows (answers : Nat → Bool) (attempts : σ → Nat) (fine : ε → Prop) (m : Throwing ε σ α) (s : σ) (p : Tries) : Prop :=
  match exec m s with
  | (.ok _, _) => ¬ p.lost answers (attempts s)
  | (.error e, t) => p.lost answers (attempts s) ∧ fine e ∧ attempts t = p.next answers (attempts s)

section
variable {answers : Nat → Bool} {attempts : σ → Nat} {fine : ε → Prop} {m : Throwing ε σ α} {s t : σ} {p : Tries}

theorem Follows.throws_iff (h : Follows answers attempts fine m s p) : throws m s ↔ p.lost answers (attempts s) := by
  unfold Follows at h
  unfold throws
  rcases hm : exec m s with ⟨e | a, t⟩
  · rw [hm] at h
    simp [h.1]
  · rw [hm] at h
    simpa using h

/-- What throws without an attempt. -/
theorem follows_error {e : ε} (hm : exec m s = (.error e, t)) (ht : attempts t = attempts s) (he : fine e) :
    Follows answers attempts fine m s (.row 0 0) := by
  simp [Follows, hm, Tries.lost, Tries.next, he, ht]

theorem follows_throw {e : ε} (he : fine e) : Follows answers attempts fine (throw e : Throwing ε σ α) s (.row 0 0) :=
  follows_error (exec_throw s e) rfl he

/-- What is done first and makes no attempt. -/
theorem follows_bind {a : α} (hm : exec m s = (.ok a, t)) (ht : attempts t = attempts s) {f : α → Throwing ε σ β}
    (hf : Follows answers attempts fine (f a) t p) : Follows answers attempts fine (m >>= f) s p := by
  unfold Follows at hf ⊢
  rwa [exec_bind_ok hm, ← ht]

/-- What is done afterwards never throws. -/
theorem Follows.bind_never (hm : Follows answers attempts fine m s p) {f : α → Throwing ε σ β}
    (hf : ∀ a t, exec m s = (.ok a, t) → Follows answers attempts fine (f a) t .never) :
    Follows answers attempts fine (m >>= f) s p := by
  unfold Follows at hm ⊢
  rcases hexec : exec m s with ⟨e | a, t⟩
  · rw [exec_bind_error hexec]
    rwa [hexec] at hm
  · have hnever := hf a t hexec
    unfold Follows at hnever
    rw [exec_bind_ok hexec]
    rw [hexec] at hm
    rcases hexec' : exec (f a) t with ⟨e' | b, t'⟩
    · rw [hexec'] at hnever
      exact hnever.1.elim
    · exact hm

/-- What is done first makes attempts, whatever becomes of them. -/
theorem follows_bind_skip {a : α} {skipped count : Nat} (hm : exec m s = (.ok a, t)) (ht : attempts t = attempts s + skipped)
    {f : α → Throwing ε σ β} (hf : Follows answers attempts fine (f a) t (.row 0 count)) :
    Follows answers attempts fine (m >>= f) s (.row skipped count) := by
  unfold Follows at hf ⊢
  rw [exec_bind_ok hm]
  simpa [Tries.lost, Tries.next, ht] using hf

/-- **An exception is answered with one attempt.** -/
theorem Follows.tryCatch {h : ε → Throwing ε σ α} (hm : Follows answers attempts fine m s p)
    (hh : ∀ e t, fine e → Follows answers attempts fine (h e) t (.row 0 1)) :
    Follows answers attempts fine (tryCatch m h) s p.reported := by
  unfold Follows at hm ⊢
  rcases hexec : exec m s with ⟨e | a, t⟩
  · rw [hexec] at hm
    obtain ⟨hlost, hfine, hnext⟩ := hm
    have hne : p ≠ .never := by
      rintro rfl
      exact hlost
    rw [exec_tryCatch_error hexec]
    have hreport := hh e t hfine
    unfold Follows at hreport
    rcases hexec' : exec (h e) t with ⟨e' | a', t'⟩
    · rw [hexec', Tries.lost_one, hnext] at hreport
      refine ⟨(Tries.lost_reported p).2 ⟨hlost, hreport.1⟩, hreport.2.1, ?_⟩
      rw [hreport.2.2, Tries.next_reported p hne]
      rfl
    · rw [hexec', Tries.lost_one, hnext] at hreport
      intro hlost'
      exact hreport ((Tries.lost_reported p).1 hlost').2
  · rw [hexec] at hm
    rw [exec_tryCatch_ok hexec]
    intro hlost
    exact hm ((Tries.lost_reported p).1 hlost).1

end

end Throwing
