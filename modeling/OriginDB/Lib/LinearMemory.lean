import OriginDB.Lib.Access
/-!
# A linear memory

A memory is its elements, from address zero on. A copy into it that leaves it is no step of a program: it ends nowhere
(`copyTo`), and so does a look outside it (`copyFrom`). What is copied is read back, and what it does not touch stays
(`slice_overwrite`, `slice_overwrite_of_disjoint`).
-/
namespace LinearMemory

variable {α : Type}

/-- The `n` elements at `i`. -/
def slice (m : List α) (i n : Nat) : List α := (m.drop i).take n

/-- The memory with `bs` at `i`. -/
def overwrite (m : List α) (i : Nat) (bs : List α) : List α := m.take i ++ (bs ++ m.drop (i + bs.length))

def copyTo (m : List α) (i : Nat) (bs : List α) : Access (List α) :=
  if i + bs.length ≤ m.length then .value (overwrite m i bs) else .nowhere

def copyFrom (m : List α) (i n : Nat) : Access (List α) := if i + n ≤ m.length then .value (slice m i n) else .nowhere

/-- The elements at `i` up to the first that is `stop`, wherever it stands. -/
def copyUntil [DecidableEq α] (stop : α) (m : List α) (i : Nat) : Access (List α) :=
  if (m.drop i).contains stop then .value ((m.drop i).takeWhile (· ≠ stop)) else .nowhere

section
variable {m bs : List α} {i j n : Nat}

theorem length_overwrite (h : i + bs.length ≤ m.length) : (overwrite m i bs).length = m.length := by
  simp only [overwrite, List.length_append, List.length_take, List.length_drop]
  omega

theorem getElem?_overwrite_of_lt (h : i ≤ m.length) (hj : j < i) : (overwrite m i bs)[j]? = m[j]? := by
  rw [overwrite, List.getElem?_append_left (by rw [List.length_take]; omega), List.getElem?_take_of_lt hj]

theorem getElem?_overwrite_of_ge (h : i + bs.length ≤ m.length) (hj : i + bs.length ≤ j) : (overwrite m i bs)[j]? = m[j]? := by
  have hlength : (m.take i).length = i := by
    rw [List.length_take]
    omega
  rw [overwrite, List.getElem?_append_right (by omega), hlength, List.getElem?_append_right (by omega), List.getElem?_drop]
  congr 1
  omega

/-- **What has been written is read.** -/
theorem slice_overwrite (h : i ≤ m.length) : slice (overwrite m i bs) i bs.length = bs := by
  have hlength : (m.take i).length = i := by
    rw [List.length_take]
    omega
  have hdrop : (overwrite m i bs).drop i = bs ++ m.drop (i + bs.length) := by
    rw [overwrite, List.drop_left' hlength]
  rw [slice, hdrop, List.take_left]

/-- **What is not written stays.** -/
theorem slice_overwrite_of_disjoint (h : i + bs.length ≤ m.length) (hd : j + n ≤ i ∨ i + bs.length ≤ j) :
    slice (overwrite m i bs) j n = slice m j n := by
  ext k
  simp only [slice, List.getElem?_take, List.getElem?_drop]
  by_cases hk : k < n
  · rw [if_pos hk, if_pos hk]
    obtain hbefore | hbehind := hd
    · rw [getElem?_overwrite_of_lt (by omega) (by omega)]
    · rw [getElem?_overwrite_of_ge h (by omega)]
  · rw [if_neg hk, if_neg hk]

end

end LinearMemory
