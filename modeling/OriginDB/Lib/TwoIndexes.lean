import Mathlib.Data.List.Nodup
import Mathlib.Tactic.Common
/-!
# A list with two indexes

One index finds the element that has a key, the other the keys of the elements that have an owner; an owner without elements is in
neither. What an insertion, a removal by key and a removal by owner do to the indexes is said in terms of the list.
-/
namespace TwoIndexes

variable {V K O : Type} (key : V → K) (owner : V → Option O)

def byKey [DecidableEq K] (all : List V) (k : K) : Option V := all.find? fun v => key v = k

section
variable [DecidableEq O]

def owned (all : List V) (o : O) : List V := all.filter fun v => owner v = some o

def keysOf (all : List V) (o : O) : List K := (owned owner all o).map key

def byOwner (all : List V) (o : O) : Option (List K) :=
  if keysOf key owner all o = [] then none else some (keysOf key owner all o)

end

variable {key owner} {all : List V} {v : V} {k k' : K} {o o' : O}

section
variable [DecidableEq K]

/-! ## The index by key -/

theorem byKey_eq_none : byKey key all k = none ↔ ∀ v ∈ all, key v ≠ k := by
  simp [byKey]

theorem key_of_byKey (h : byKey key all k = some v) : key v = k := by
  simpa using List.find?_some h

theorem mem_of_byKey (h : byKey key all k = some v) : v ∈ all := List.mem_of_find?_eq_some h

theorem byKey_of_mem (hd : (all.map key).Nodup) (hv : v ∈ all) : byKey key all (key v) = some v := by
  induction all with
  | nil => cases hv
  | cons w all ih =>
    rw [List.map_cons, List.nodup_cons] at hd
    obtain rfl | hv := List.mem_cons.1 hv
    · simp [byKey]
    · have hne : key w ≠ key v := fun heq => hd.1 (heq ▸ List.mem_map_of_mem hv)
      rw [byKey, List.find?_cons_of_neg (by simpa using hne)]
      exact ih hd.2 hv

theorem byKey_iff (hd : (all.map key).Nodup) : byKey key all k = some v ↔ v ∈ all ∧ key v = k := by
  constructor
  · intro h
    exact ⟨mem_of_byKey h, key_of_byKey h⟩
  · rintro ⟨hv, rfl⟩
    exact byKey_of_mem hd hv

theorem byKey_append (hfresh : byKey key all (key v) = none) :
    byKey key (all ++ [v]) k = if key v = k then some v else byKey key all k := by
  rw [byKey, List.find?_append]
  by_cases hk : key v = k
  · subst hk
    rw [byKey] at hfresh
    simp [hfresh]
  · simp [byKey, hk]

/-- A filter that keeps or drops all that a key has. -/
theorem byKey_filter {p : V → Bool} (hd : (all.map key).Nodup) :
    byKey key (all.filter p) k = (byKey key all k).filter p := by
  have hd' : ((all.filter p).map key).Nodup := hd.sublist (List.filter_sublist.map key)
  ext v
  rw [byKey_iff hd', Option.filter_eq_some_iff, byKey_iff hd, List.mem_filter]
  tauto

theorem byKey_remove (hd : (all.map key).Nodup) :
    byKey key (all.filter fun v => key v ≠ k) k' = if k = k' then none else byKey key all k' := by
  rw [byKey_filter hd]
  cases h : byKey key all k' with
  | none => simp
  | some v =>
    have hkey := key_of_byKey h
    by_cases hk : k = k'
    · subst hk
      simp [Option.filter, hkey]
    · rw [if_neg hk]
      simp [Option.filter, hkey, Ne.symm hk]

theorem length_remove (hd : (all.map key).Nodup) (h : byKey key all k = some v) :
    (all.filter fun v => key v ≠ k).length + 1 = all.length := by
  have hone : (all.filter fun v => key v = k).length = 1 := by
    have hcount : (all.map key).count k = 1 := by
      obtain ⟨hv, rfl⟩ := (byKey_iff hd).1 h
      exact List.count_eq_one_of_mem hd (List.mem_map_of_mem hv)
    rw [← hcount, List.count, List.countP_map, List.countP_eq_length_filter]
    rfl
  have hsum := List.length_eq_length_filter_add (l := all) fun v => decide (key v = k)
  have hnot : (all.filter fun v => !decide (key v = k)) = all.filter fun v => key v ≠ k := by
    refine List.filter_congr fun v _ => ?_
    simp
  rw [hone, hnot] at hsum
  omega

end

section
variable [DecidableEq O]

/-! ## The index by owner -/

theorem mem_keysOf : k ∈ keysOf key owner all o ↔ ∃ v ∈ all, owner v = some o ∧ key v = k := by
  simp [keysOf, owned, and_assoc]

theorem byOwner_getD : (byOwner key owner all o).getD [] = keysOf key owner all o := by
  rw [byOwner]
  split
  · rename_i h
    exact h.symm
  · rfl

theorem byOwner_congr {all' : List V} (h : keysOf key owner all' o = keysOf key owner all o) :
    byOwner key owner all' o = byOwner key owner all o := by
  rw [byOwner, byOwner, h]

theorem byOwner_append : byOwner key owner (all ++ [v]) o =
    if owner v = some o then some (keysOf key owner all o ++ [key v]) else byOwner key owner all o := by
  by_cases ho : owner v = some o
  · have h : keysOf key owner (all ++ [v]) o = keysOf key owner all o ++ [key v] := by
      simp [keysOf, owned, ho]
    rw [if_pos ho, byOwner, h, if_neg (by simp)]
  · rw [if_neg ho]
    exact byOwner_congr (by simp [keysOf, owned, ho])

theorem keysOf_removeOwner : keysOf key owner (all.filter fun v => owner v ≠ some o) o' =
    if o = o' then [] else keysOf key owner all o' := by
  rw [keysOf, owned, List.filter_filter]
  split
  · rename_i ho
    subst ho
    rw [List.map_eq_nil_iff, List.filter_eq_nil_iff]
    simp
  · rename_i ho
    rw [keysOf, owned]
    congr 1
    refine List.filter_congr fun v _ => ?_
    by_cases hv : owner v = some o'
    · simp [hv, Ne.symm ho]
    · simp [hv]

theorem byOwner_removeOwner : byOwner key owner (all.filter fun v => owner v ≠ some o) o' =
    if o = o' then none else byOwner key owner all o' := by
  rw [byOwner, keysOf_removeOwner]
  split
  · rename_i ho
    rw [if_pos rfl]
  · rfl

theorem length_removeOwner :
    (all.filter fun v => owner v ≠ some o).length + (keysOf key owner all o).length = all.length := by
  have hsum := List.length_eq_length_filter_add (l := all) fun v => decide (owner v = some o)
  have hnot : (all.filter fun v => !decide (owner v = some o)) = all.filter fun v => owner v ≠ some o := by
    refine List.filter_congr fun v _ => ?_
    simp
  rw [hnot] at hsum
  rw [keysOf, owned, List.length_map]
  omega

end

section
variable [DecidableEq K] [DecidableEq O]

/-! ## Both -/

theorem keysOf_remove : keysOf key owner (all.filter fun v => key v ≠ k) o = (keysOf key owner all o).filter (· ≠ k) := by
  rw [keysOf, keysOf, owned, owned, List.filter_filter, List.filter_map, List.filter_filter]
  congr 1
  refine List.filter_congr fun v _ => ?_
  simp [Bool.and_comm]

theorem byKey_removeOwner_of_mem (hd : (all.map key).Nodup) (hk : k ∈ keysOf key owner all o) :
    byKey key (all.filter fun v => owner v ≠ some o) k = none := by
  obtain ⟨v, hv, ho, rfl⟩ := mem_keysOf.1 hk
  rw [byKey_filter hd, byKey_of_mem hd hv]
  simp [Option.filter, ho]

theorem byKey_removeOwner_of_notMem (hd : (all.map key).Nodup) (hk : k ∉ keysOf key owner all o) :
    byKey key (all.filter fun v => owner v ≠ some o) k = byKey key all k := by
  rw [byKey_filter hd]
  cases h : byKey key all k with
  | none => rfl
  | some v =>
    have ho : owner v ≠ some o := fun ho => hk (mem_keysOf.2 ⟨v, mem_of_byKey h, ho, key_of_byKey h⟩)
    simp [Option.filter, ho]

/-- From the owner over the keys back to the elements. -/
theorem filterMap_keysOf (hd : (all.map key).Nodup) : (keysOf key owner all o).filterMap (byKey key all) = owned owner all o := by
  rw [keysOf, List.filterMap_map]
  conv_rhs => rw [← List.filterMap_some (l := owned owner all o)]
  refine List.filterMap_congr fun v hv => ?_
  exact byKey_of_mem hd (List.mem_of_mem_filter hv)

end

end TwoIndexes
