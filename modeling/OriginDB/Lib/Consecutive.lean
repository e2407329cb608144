import Mathlib.Data.List.Basic
import Mathlib.Tactic.Common
/-!
# Runs of consecutive numbers

A list that counts up by one. Its suffixes do so too, and one more number is appended to it exactly when it is the
next one.
-/
namespace Lists

/-- The numbers from the first one on, none left out and none twice. -/
def Consecutive (ns : List Nat) : Prop := ∃ first, ns = List.range' first ns.length

namespace Consecutive

variable {ns ms : List Nat} {n m : Nat}

@[simp] theorem nil : Consecutive [] := ⟨0, rfl⟩

@[simp] theorem singleton (n : Nat) : Consecutive [n] := ⟨n, rfl⟩

theorem suffix (h : Consecutive ns) (hms : ms <:+ ns) : Consecutive ms := by
  obtain ⟨pre, rfl⟩ := hms
  obtain ⟨first, hns⟩ := h
  rw [eq_comm, List.range'_eq_append_iff] at hns
  obtain ⟨k, -, -, hms⟩ := hns
  refine ⟨first + k * 1, ?_⟩
  rw [hms]
  simp

/-- Where the run goes on. -/
theorem snoc_iff (hlast : ns.getLast? = some m) : Consecutive (ns ++ [n]) ↔ Consecutive ns ∧ n = m + 1 := by
  constructor
  · intro h
    have hns : Consecutive ns := by
      obtain ⟨first, h⟩ := h
      rw [eq_comm, List.range'_eq_append_iff] at h
      obtain ⟨k, -, hns, -⟩ := h
      exact ⟨first, by rw [hns]; simp⟩
    refine ⟨hns, ?_⟩
    obtain ⟨first, h⟩ := h
    rw [List.length_append, List.length_singleton, List.range'_1_concat] at h
    obtain ⟨hrun, hn⟩ := List.append_inj' h rfl
    rw [hrun, List.getLast?_range'] at hlast
    split at hlast
    · cases hlast
    · simp only [Option.some.injEq] at hlast
      simp only [List.cons.injEq, and_true] at hn
      omega
  · rintro ⟨⟨first, hns⟩, rfl⟩
    have hm : ns.length ≠ 0 ∧ m = first + ns.length - 1 := by
      rw [hns, List.getLast?_range'] at hlast
      split at hlast
      · cases hlast
      · simp only [Option.some.injEq] at hlast
        rename_i hne
        exact ⟨hne, hlast.symm⟩
    refine ⟨first, ?_⟩
    rw [List.length_append, List.length_singleton, List.range'_1_concat, ← hns]
    congr 2
    omega

end Consecutive

theorem getLast?_of_suffix {α : Type} {l m : List α} {a : α} (h : m <:+ l) (hlast : m.getLast? = some a) :
    l.getLast? = some a := by
  obtain ⟨before, rfl⟩ := h
  rw [List.getLast?_append, hlast]
  rfl

/-- What is kept of a list in which everything after a kept element is kept. -/
theorem filter_suffix {α : Type} {p : α → Bool} {l : List α} (h : l.Pairwise fun a b => p a = true → p b = true) :
    l.filter p <:+ l := by
  induction l with
  | nil => simp
  | cons a l ih =>
    obtain ⟨hall, hl⟩ := List.pairwise_cons.1 h
    by_cases ha : p a = true
    · have hself : (a :: l).filter p = a :: l := by
        apply List.filter_eq_self.2
        intro b hb
        rcases List.mem_cons.1 hb with rfl | hb
        · exact ha
        · exact hall b hb ha
      exact ⟨[], by simp [hself]⟩
    · rw [List.filter_cons_of_neg ha]
      exact (ih hl).trans (List.suffix_cons a l)

/-- What is numbered from one has a number of the list. -/
theorem le_of_numbered {α : Type} {l : List α} {f : α → Nat} {n : Nat} (h : l.map f = List.range' 1 n) {a : α} (ha : a ∈ l) :
    f a ≤ n := by
  have hmem : f a ∈ List.range' 1 n := by
    rw [← h]
    exact List.mem_map_of_mem ha
  have hrange := List.mem_range'_1.1 hmem
  omega

end Lists
