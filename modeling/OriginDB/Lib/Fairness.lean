import Mathlib.Data.Nat.Init
import OriginDB.Lib.Machine
/-!
# Runs without end, and what is bound to happen in them

An `Execution` takes a step of the machine at every moment. A party is treated fairly (`Fair`) when, again and
again, it either takes a step or has none to take. `leadsTo_of_fair` is the rule for one helpful step of such a
party, `leadsTo_of_rank` the rule for a rank that helpful steps bring down.
-/
namespace Machine

variable {S L : Type} {step : S → L → Option S}

/-- At moment `n` the state is `s n`, and the step labelled `l n` is taken, which `ok` permits. -/
def Execution (step : S → L → Option S) (ok : S → L → Prop) (s : Nat → S) (l : Nat → L) : Prop :=
  ∀ n, ok (s n) (l n) ∧ step (s n) (l n) = some (s (n + 1))

/-- Some step of the party is enabled. -/
def Enabled (step : S → L → Option S) (mine : L → Prop) (s : S) : Prop := ∃ l s', mine l ∧ step s l = some s'

/-- Again and again the party whose labels are `mine` takes a step, or has none to take. -/
def Fair (step : S → L → Option S) (mine : L → Prop) (s : Nat → S) (l : Nat → L) : Prop :=
  ∀ n, ∃ m, n ≤ m ∧ (mine (l m) ∨ ¬ Enabled step mine (s m))

/-- Whenever `P` holds, `Q` holds then or later. -/
def LeadsTo (s : Nat → S) (P Q : S → Prop) : Prop := ∀ n, P (s n) → ∃ m, n ≤ m ∧ Q (s m)

section
variable {ok : S → L → Prop} {s : Nat → S} {l : Nat → L} {P Q R : S → Prop} {mine : L → Prop}

/-- What holds at a moment and is preserved by the steps of the execution holds from then on. -/
theorem Execution.stays (hx : Execution step ok s l) (hstep : ∀ t m t', P t → ok t m → step t m = some t' → P t') {n m : Nat}
    (hn : P (s n)) (hm : n ≤ m) : P (s m) := by
  induction m, hm using Nat.le_induction with
  | base => exact hn
  | succ m _ ih => exact hstep (s m) (l m) (s (m + 1)) ih (hx m).1 (hx m).2

/-- Along an execution `P` holds until `Q` does. -/
theorem Execution.until (hx : Execution step ok s l) (hstay : ∀ t m t', P t → ok t m → step t m = some t' → P t' ∨ Q t')
    {n m : Nat} (hn : P (s n)) (hm : n ≤ m) : P (s m) ∨ ∃ k, n ≤ k ∧ Q (s k) := by
  induction m, hm using Nat.le_induction with
  | base => exact Or.inl hn
  | succ m hm ih =>
    obtain hp | hq := ih
    · exact (hstay _ _ _ hp (hx m).1 (hx m).2).imp id fun hq => ⟨m + 1, by omega, hq⟩
    · exact Or.inr hq

/-- **One helpful party.** While `P` holds the party can step, and its step brings `Q`; no other step ends `P` without
bringing `Q`. -/
theorem leadsTo_of_fair (hx : Execution step ok s l) (hfair : Fair step mine s l) (henabled : ∀ t, P t → Enabled step mine t)
    (hstay : ∀ t m t', P t → ok t m → step t m = some t' → P t' ∨ Q t')
    (hhelps : ∀ t m t', P t → mine m → step t m = some t' → Q t') : LeadsTo s P Q := by
  intro n hn
  obtain ⟨m, hm, hmine⟩ := hfair n
  obtain hp | hq := hx.until hstay hn hm
  · obtain hmine | hnot := hmine
    · exact ⟨m + 1, by omega, hhelps _ _ _ hp hmine (hx m).2⟩
    · exact absurd (henabled _ hp) hnot
  · exact hq

/-- **A rank that goes down.** Whenever `P` holds, `Q` or `P` with a lower rank comes. -/
theorem leadsTo_of_rank (rank : S → Nat) (hdown : ∀ k, LeadsTo s (fun t => P t ∧ rank t = k) fun t => Q t ∨ (P t ∧ rank t < k)) :
    LeadsTo s P Q := by
  intro n hn
  generalize hk : rank (s n) = k
  induction k using Nat.strong_induction_on generalizing n with
  | _ k ih =>
    obtain ⟨m, hm, hq | ⟨hp, hlt⟩⟩ := hdown k n ⟨hn, hk⟩
    · exact ⟨m, hm, hq⟩
    · obtain ⟨i, hi, hq⟩ := ih _ hlt m hp rfl
      exact ⟨i, by omega, hq⟩

theorem LeadsTo.trans (h : LeadsTo s P Q) (h' : LeadsTo s Q R) : LeadsTo s P R := by
  intro n hn
  obtain ⟨m, hm, hq⟩ := h n hn
  obtain ⟨k, hk, hr⟩ := h' m hq
  exact ⟨k, by omega, hr⟩

end

end Machine
