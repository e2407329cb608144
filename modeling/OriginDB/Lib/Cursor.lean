import Mathlib.Data.List.Basic
import Mathlib.Data.List.Perm.Subperm
import Mathlib.Tactic.Common
/-!
# Reading an increasing list page by page

A reader with a position takes the first `n` elements from its position on and moves behind the last of them. What is
before the position and the page are what is before the new position (`Cursor.page`), and a page that is not full is
the rest of the list (`Cursor.page_short`).
-/
namespace Cursor

variable {α : Type} {key : α → Nat} {l m : List α} {s n : Nat} {e : α}

theorem filter_lt_append_filter_le (hs : l.Pairwise fun a b => key a < key b) (s : Nat) :
    (l.filter fun a => key a < s) ++ (l.filter fun a => s ≤ key a) = l := by
  induction l with
  | nil => rfl
  | cons a l ih =>
    obtain ⟨ha, hl⟩ := List.pairwise_cons.1 hs
    by_cases hlt : key a < s
    · rw [List.filter_cons_of_pos (by simpa using hlt), List.filter_cons_of_neg (by simpa using hlt), List.cons_append, ih hl]
    · have hnone : (l.filter fun a => decide (key a < s)) = [] := by
        apply List.filter_eq_nil_iff.2
        intro b hb
        have := ha b hb
        simp only [decide_eq_true_eq]
        omega
      have hall : (l.filter fun a => decide (s ≤ key a)) = l := by
        apply List.filter_eq_self.2
        intro b hb
        have := ha b hb
        simp only [decide_eq_true_eq]
        omega
      rw [List.filter_cons_of_neg (by simpa using hlt), List.filter_cons_of_pos (by simpa using hlt), hnone, hall,
        List.nil_append]

/-- The last element of an increasing list is its greatest. -/
theorem le_getLast (hs : l.Pairwise fun a b => key a < key b) (hlast : l.getLast? = some e) : ∀ a ∈ l, key a ≤ key e := by
  intro a ha
  obtain ⟨before, rfl⟩ := List.getLast?_eq_some_iff.1 hlast
  rcases List.mem_append.1 ha with h | h
  · exact Nat.le_of_lt ((List.pairwise_append.1 hs).2.2 a h e (by simp))
  · cases List.mem_singleton.1 h
    exact Nat.le_refl _

/-- The first elements are those up to the last of them. -/
theorem take_eq_filter (hs : l.Pairwise fun a b => key a < key b) (hlast : (l.take n).getLast? = some e) :
    l.take n = l.filter fun a => key a < key e + 1 := by
  have hsplit := hs
  rw [← List.take_append_drop n l, List.pairwise_append] at hsplit
  obtain ⟨htake, -, hafter⟩ := hsplit
  have hself : ((l.take n).filter fun a => decide (key a < key e + 1)) = l.take n := by
    apply List.filter_eq_self.2
    intro a ha
    have := le_getLast htake hlast a ha
    simp only [decide_eq_true_eq]
    omega
  have hnone : ((l.drop n).filter fun a => decide (key a < key e + 1)) = [] := by
    apply List.filter_eq_nil_iff.2
    intro a ha
    have := hafter e (List.mem_of_getLast? hlast) a ha
    simp only [decide_eq_true_eq]
    omega
  conv => rhs; rw [← List.take_append_drop n l]
  rw [List.filter_append, hself, hnone, List.append_nil]

/-- **A page moves the position behind its last element.** -/
theorem page (hs : l.Pairwise fun a b => key a < key b) (hlast : ((l.filter fun a => s ≤ key a).take n).getLast? = some e) :
    (l.filter fun a => key a < s) ++ (l.filter fun a => s ≤ key a).take n = l.filter fun a => key a < key e + 1 := by
  have hs' : (l.filter fun a => decide (s ≤ key a)).Pairwise fun a b => key a < key b := hs.sublist List.filter_sublist
  have hle : s ≤ key e := by
    have hmem := List.mem_of_mem_take (List.mem_of_getLast? hlast)
    simpa using (List.mem_filter.1 hmem).2
  have hbefore : ((l.filter fun a => decide (key a < s)).filter fun a => decide (key a < key e + 1)) =
      l.filter fun a => decide (key a < s) := by
    apply List.filter_eq_self.2
    intro a ha
    have := (List.mem_filter.1 ha).2
    simp only [decide_eq_true_eq] at this ⊢
    omega
  rw [take_eq_filter hs' hlast]
  conv => rhs; rw [← filter_lt_append_filter_le hs s]
  rw [List.filter_append, hbefore]

/-- **A page that is not full reaches the end.** -/
theorem page_short (hs : l.Pairwise fun a b => key a < key b) (hshort : ((l.filter fun a => s ≤ key a).take n).length < n) :
    (l.filter fun a => key a < s) ++ (l.filter fun a => s ≤ key a).take n = l := by
  have hall : (l.filter fun a => decide (s ≤ key a)).take n = l.filter fun a => decide (s ≤ key a) := by
    apply List.take_of_length_le
    rw [List.length_take] at hshort
    omega
  rw [hall, filter_lt_append_filter_le hs]

/-- A part of a list without repetitions that has every element is the list. -/
theorem eq_of_sublist (h : m.Sublist l) (hl : l.Nodup) (hall : ∀ a ∈ l, a ∈ m) : m = l :=
  h.eq_of_length_le (hl.subperm hall).length_le

end Cursor
