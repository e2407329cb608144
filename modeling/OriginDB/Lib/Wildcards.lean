import Mathlib.Data.List.Count
import Mathlib.Tactic.Common
/-!
# Wildcard patterns

A pattern is a sequence of letters and of wildcards for one letter or for any number of them. `Matches p` lets the
wildcards stand for letters of a class `p` only. Whether the class makes a difference for a word is a matter of counting:
a word that matches at all also matches within the class if it has no more letters outside it than the pattern itself
(`matches_avoiding_iff`).
-/
namespace Wildcards

variable {α : Type}

inductive Piece (α : Type) where
  | any
  | one
  | letter (a : α)
deriving DecidableEq

/-- The word matches, the wildcards standing for letters of the class. -/
def Matches (p : α → Prop) : List (Piece α) → List α → Prop
  | [], s => s = []
  | .any :: ps, s => ∃ u v, s = u ++ v ∧ (∀ a ∈ u, p a) ∧ Matches p ps v
  | .one :: ps, s => ∃ a v, s = a :: v ∧ p a ∧ Matches p ps v
  | .letter a :: ps, s => ∃ v, s = a :: v ∧ Matches p ps v

/-- The letters a pattern has itself. -/
def letters : List (Piece α) → List α
  | [] => []
  | .letter a :: ps => a :: letters ps
  | _ :: ps => letters ps

variable {p q : α → Prop} {ps : List (Piece α)} {s : List α}

theorem Matches.mono (hpq : ∀ a, p a → q a) (h : Matches p ps s) : Matches q ps s := by
  induction ps generalizing s with
  | nil => exact h
  | cons piece ps ih =>
    cases piece with
    | any =>
      obtain ⟨u, v, rfl, hu, hv⟩ := h
      exact ⟨u, v, rfl, fun a ha => hpq a (hu a ha), ih hv⟩
    | one =>
      obtain ⟨a, v, rfl, ha, hv⟩ := h
      exact ⟨a, v, rfl, hpq a ha, ih hv⟩
    | letter a =>
      obtain ⟨v, rfl, hv⟩ := h
      exact ⟨v, rfl, ih hv⟩

/-- The pattern's own letters are among the word's. -/
theorem Matches.count_le (c : α → Bool) (h : Matches p ps s) : (letters ps).countP c ≤ s.countP c := by
  induction ps generalizing s with
  | nil => exact Nat.zero_le _
  | cons piece ps ih =>
    cases piece with
    | any =>
      obtain ⟨u, v, rfl, -, hv⟩ := h
      rw [List.countP_append]
      exact Nat.le_trans (ih hv) (Nat.le_add_left _ _)
    | one =>
      obtain ⟨a, v, rfl, -, hv⟩ := h
      rw [List.countP_cons]
      exact Nat.le_trans (ih hv) (Nat.le_add_right _ _)
    | letter a =>
      obtain ⟨v, rfl, hv⟩ := h
      rw [letters, List.countP_cons, List.countP_cons]
      exact Nat.add_le_add_right (ih hv) _

/-- **Wildcards that avoid some letters** match the words that match at all and have as many of these as the pattern. -/
theorem matches_avoiding_iff (c : α → Bool) (ps : List (Piece α)) (s : List α) :
    Matches (fun a => c a = false) ps s ↔ Matches (fun _ => True) ps s ∧ s.countP c ≤ (letters ps).countP c := by
  constructor
  · intro h
    refine ⟨h.mono fun _ _ => trivial, ?_⟩
    induction ps generalizing s with
    | nil =>
      obtain rfl : s = [] := h
      exact Nat.le_refl _
    | cons piece ps ih =>
      cases piece with
      | any =>
        obtain ⟨u, v, rfl, hu, hv⟩ := h
        have hnone : u.countP c = 0 := List.countP_eq_zero.2 fun a ha => by simp [hu a ha]
        rw [List.countP_append, hnone, Nat.zero_add]
        exact ih v hv
      | one =>
        obtain ⟨a, v, rfl, ha, hv⟩ := h
        rw [List.countP_cons_of_neg (by simp [ha])]
        exact ih v hv
      | letter a =>
        obtain ⟨v, rfl, hv⟩ := h
        rw [letters, List.countP_cons, List.countP_cons]
        exact Nat.add_le_add_right (ih v hv) _
  · rintro ⟨h, hcount⟩
    induction ps generalizing s with
    | nil => exact h
    | cons piece ps ih =>
      cases piece with
      | any =>
        obtain ⟨u, v, rfl, -, hv⟩ := h
        have hle := hv.count_le c
        rw [List.countP_append] at hcount
        have hcount' : u.countP c + v.countP c ≤ (letters ps).countP c := hcount
        have hnone : u.countP c = 0 := by omega
        refine ⟨u, v, rfl, fun a ha => ?_, ih v hv (by omega)⟩
        simpa using List.countP_eq_zero.1 hnone a ha
      | one =>
        obtain ⟨a, v, rfl, -, hv⟩ := h
        have hle := hv.count_le c
        rw [List.countP_cons] at hcount
        have hcount' : v.countP c + (if c a = true then 1 else 0) ≤ (letters ps).countP c := hcount
        by_cases ha : c a = true
        · rw [if_pos ha] at hcount'
          omega
        · rw [if_neg ha] at hcount'
          exact ⟨a, v, rfl, by simpa using ha, ih v hv (by omega)⟩
      | letter a =>
        obtain ⟨v, rfl, hv⟩ := h
        rw [letters, List.countP_cons, List.countP_cons] at hcount
        exact ⟨v, rfl, ih v hv (by omega)⟩

end Wildcards
