import Mathlib.Data.List.Nodup
import Mathlib.Tactic.Common
import Std.Data.ExtTreeMap
/-!
# Ordered maps rebuilt from a listing

`Std.ExtTreeMap` is extensional, so two maps with the same lookups are equal. A map is recovered by
inserting any listing of its entries, in any order (`insertAll_perm`); the insert-if-absent loop a loader
runs does the same where no key comes twice (`insertNewAll_eq_insertAll`).
-/
namespace OrdMap

open Std

variable {α β : Type} {cmp : α → α → Ordering} [TransCmp cmp]

section
variable [LawfulEqCmp cmp] [DecidableEq α]

@[grind =] theorem getElem?_insert (m : ExtTreeMap α β cmp) (k a : α) (v : β) :
    (m.insert k v)[a]? = if k = a then some v else m[a]? := by
  rw [ExtTreeMap.getElem?_insert]
  by_cases h : k = a
  · subst h; simp
  · simp [h]

@[grind =] theorem getElem?_erase (m : ExtTreeMap α β cmp) (k a : α) :
    (m.erase k)[a]? = if k = a then none else m[a]? := by
  rw [ExtTreeMap.getElem?_erase]
  by_cases h : k = a
  · subst h; simp
  · simp [h]

theorem erase_of_none {m : ExtTreeMap α β cmp} {k : α} (h : m[k]? = none) : m.erase k = m := by
  apply ExtTreeMap.ext_getElem?
  intro j
  rw [getElem?_erase]
  split
  · rename_i hj
    rw [← hj, h]
  · rfl

end

/-- `m[k] = v` for each entry in turn. -/
def insertAll (m : ExtTreeMap α β cmp) (l : List (α × β)) : ExtTreeMap α β cmp :=
  l.foldl (fun m p => m.insert p.1 p.2) m

/-- Insert each entry whose key is not there yet. -/
def insertNewAll (m : ExtTreeMap α β cmp) (l : List (α × β)) : ExtTreeMap α β cmp :=
  l.foldl (fun m p => if m[p.1]?.isSome then m else m.insert p.1 p.2) m

theorem insertAll_cons (m : ExtTreeMap α β cmp) (p : α × β) (l : List (α × β)) :
    insertAll m (p :: l) = insertAll (m.insert p.1 p.2) l := rfl

omit [TransCmp cmp] in
theorem lookup_map [BEq α] {γ : Type} (f : β → γ) (l : List (α × β)) (k : α) :
    (l.map fun p => (p.1, f p.2)).lookup k = (l.lookup k).map f := by
  induction l with
  | nil => rfl
  | cons p l ih =>
    rw [List.map_cons, List.lookup_cons, List.lookup_cons, ih]
    split <;> rfl

/-- A loop that inserts an entry where `f` gives one, and passes over the others. -/
theorem foldl_eq_insertAll {ι : Type} {f : ι → Option (α × β)} {g : ExtTreeMap α β cmp → ι → ExtTreeMap α β cmp}
    (hsome : ∀ m x p, f x = some p → g m x = m.insert p.1 p.2) (hnone : ∀ m x, f x = none → g m x = m)
    (l : List ι) (m : ExtTreeMap α β cmp) : l.foldl g m = insertAll m (l.filterMap f) := by
  induction l generalizing m with
  | nil => rfl
  | cons x l ih =>
    rw [List.foldl_cons, List.filterMap_cons, ih]
    cases h : f x with
    | none => rw [hnone m x h]
    | some p => rw [hsome m x p h, insertAll_cons]

variable [LawfulEqCmp cmp]

/-- One entry per key. -/
def Distinct (l : List (α × β)) : Prop := (l.map Prod.fst).Nodup

theorem distinct_toList (m : ExtTreeMap α β cmp) : Distinct m.toList := by
  have h : m.toList.Pairwise (fun a b => ¬ cmp a.1 b.1 = .eq) := ExtTreeMap.distinct_keys_toList
  refine List.pairwise_map.2 (h.imp ?_)
  intro a b hne heq
  exact hne (by rw [heq]; exact ReflCmp.compare_self)

theorem Distinct.perm {l l' : List (α × β)} (h : Distinct l) (hp : l'.Perm l) : Distinct l' :=
  (hp.map Prod.fst).nodup_iff.2 h

variable {γ : Type}

theorem Distinct.filterMap {l : List (α × β)} (h : Distinct l) (f : α → β → Option γ) :
    Distinct (l.filterMap fun p => (f p.1 p.2).map fun v => (p.1, v)) := by
  induction l with
  | nil => exact List.nodup_nil
  | cons p l ih =>
    obtain ⟨hp, hl⟩ := List.nodup_cons.1 h
    rw [List.filterMap_cons]
    cases hf : f p.1 p.2 with
    | none => exact ih hl
    | some v =>
      refine List.nodup_cons.2 ⟨?_, ih hl⟩
      intro hmem
      obtain ⟨q, hq, he⟩ := List.mem_map.1 hmem
      obtain ⟨r, hr, hfr⟩ := List.mem_filterMap.1 hq
      obtain ⟨u, -, rfl⟩ := Option.map_eq_some_iff.1 hfr
      exact hp (List.mem_map.2 ⟨r, hr, he⟩)

theorem distinct_map {l : List (α × β)} (h : Distinct l) (f : β → γ) : Distinct (l.map fun p => (p.1, f p.2)) := by
  have hd := h.filterMap fun _ v => some (f v)
  simpa [List.filterMap_eq_map'] using hd

/-! ## Listings of related maps -/

theorem nodup_toList (m : ExtTreeMap α β cmp) : m.toList.Nodup := List.Nodup.of_map Prod.fst (distinct_toList m)

/-- Two maps that agree up to `f` have the same listing up to `f`. -/
theorem toList_map_perm {γ : Type} {m m' : ExtTreeMap α β cmp} (f : β → γ)
    (h : ∀ k : α, (m'[k]?).map f = (m[k]?).map f) :
    (m'.toList.map fun p => f p.2).Perm (m.toList.map fun p => f p.2) := by
  have hn : ∀ m : ExtTreeMap α β cmp, (m.toList.map fun p => (p.1, f p.2)).Nodup := fun m =>
    List.Nodup.of_map Prod.fst (distinct_map (distinct_toList m) f)
  have hmem : ∀ (m : ExtTreeMap α β cmp) (a : α) (c : γ),
      (a, c) ∈ (m.toList.map fun p => (p.1, f p.2)) ↔ (m[a]?).map f = some c := by
    intro m a c
    simp only [List.mem_map, Prod.mk.injEq, Option.map_eq_some_iff]
    constructor
    · rintro ⟨p, hp, rfl, rfl⟩
      exact ⟨p.2, ExtTreeMap.mem_toList_iff_getElem?_eq_some.1 hp, rfl⟩
    · rintro ⟨b, hb, rfl⟩
      exact ⟨(a, b), ExtTreeMap.mem_toList_iff_getElem?_eq_some.2 hb, rfl, rfl⟩
  have hp : (m'.toList.map fun p => (p.1, f p.2)).Perm (m.toList.map fun p => (p.1, f p.2)) := by
    refine (List.perm_ext_iff_of_nodup (hn m') (hn m)).2 ?_
    rintro ⟨a, c⟩
    rw [hmem, hmem, h]
  have := hp.map Prod.snd
  simpa [List.map_map, Function.comp_def] using this

section
variable [DecidableEq α]

theorem insertNewAll_eq_insertAll {l : List (α × β)} (hd : Distinct l) (m : ExtTreeMap α β cmp)
    (hm : ∀ p ∈ l, m[p.1]? = none) : insertNewAll m l = insertAll m l := by
  induction l generalizing m with
  | nil => rfl
  | cons p l ih =>
    obtain ⟨hp, hl⟩ := List.nodup_cons.1 hd
    have h0 : m[p.1]? = none := hm p (by simp)
    simp only [insertNewAll, insertAll, List.foldl_cons, h0, Option.isSome_none, Bool.false_eq_true, if_false]
    refine ih hl _ fun q hq => ?_
    have hne : p.1 ≠ q.1 := fun he => hp (List.mem_map.2 ⟨q, hq, he.symm⟩)
    rw [getElem?_insert, if_neg hne]
    exact hm q (by simp [hq])

theorem getElem?_insertAll_of_notMem {l : List (α × β)} {k : α} (hk : ∀ p ∈ l, p.1 ≠ k)
    (m : ExtTreeMap α β cmp) : (insertAll m l)[k]? = m[k]? := by
  induction l generalizing m with
  | nil => rfl
  | cons p l ih =>
    rw [insertAll_cons, ih (fun q hq => hk q (by simp [hq])), getElem?_insert, if_neg (hk p (by simp))]

theorem getElem?_insertAll_of_mem {l : List (α × β)} (hd : Distinct l) {k : α} {v : β} (h : (k, v) ∈ l)
    (m : ExtTreeMap α β cmp) : (insertAll m l)[k]? = some v := by
  induction l generalizing m with
  | nil => simp at h
  | cons p l ih =>
    obtain ⟨hp, hl⟩ := List.nodup_cons.1 hd
    rw [insertAll_cons]
    rcases List.mem_cons.1 h with rfl | h
    · rw [getElem?_insertAll_of_notMem (fun q hq he => hp (List.mem_map.2 ⟨q, hq, he⟩)), getElem?_insert, if_pos rfl]
    · exact ih hl h _

/-- What is inserted hides what was there. -/
theorem getElem?_insertAll (m : ExtTreeMap α β cmp) (l : List (α × β)) (k : α) :
    (insertAll m l)[k]? = (insertAll (∅ : ExtTreeMap α β cmp) l)[k]?.or m[k]? := by
  induction l generalizing m with
  | nil => simp [insertAll]
  | cons p l ih =>
    rw [insertAll_cons, insertAll_cons, ih (m.insert p.1 p.2), ih (ExtTreeMap.insert ∅ p.1 p.2), getElem?_insert,
      getElem?_insert, Option.or_assoc]
    by_cases hk : p.1 = k
    · simp [hk]
    · simp [hk]

/-- **Any listing of a map rebuilds it.** -/
theorem insertAll_perm {m : ExtTreeMap α β cmp} {l : List (α × β)} (hp : l.Perm m.toList) :
    insertAll ∅ l = m := by
  have hd : Distinct l := (distinct_toList m).perm hp
  refine ExtTreeMap.ext_getElem? fun k => ?_
  cases hk : m[k]? with
  | some v =>
    exact getElem?_insertAll_of_mem hd (hp.mem_iff.2 (ExtTreeMap.mem_toList_iff_getElem?_eq_some.2 hk)) _
  | none =>
    rw [getElem?_insertAll_of_notMem]
    · simp
    · intro p hpl he
      have := ExtTreeMap.mem_toList_iff_getElem?_eq_some.1 (hp.mem_iff.1 hpl)
      rw [he, hk] at this
      cases this

/-- A listing without repeated keys is one of the map it makes. -/
theorem toList_insertAll_perm {l : List (α × β)} (hd : Distinct l) :
    (insertAll (∅ : ExtTreeMap α β cmp) l).toList.Perm l := by
  refine (List.perm_ext_iff_of_nodup (nodup_toList _) (List.Nodup.of_map Prod.fst hd)).2 fun p => ?_
  rw [ExtTreeMap.mem_toList_iff_getElem?_eq_some]
  constructor
  · intro hget
    by_contra hno
    by_cases hkey : ∃ v, (p.1, v) ∈ l
    · obtain ⟨v, hv⟩ := hkey
      rw [getElem?_insertAll_of_mem hd hv] at hget
      cases hget
      exact hno hv
    · rw [getElem?_insertAll_of_notMem] at hget
      · simp at hget
      · intro q hq he
        exact hkey ⟨q.2, he ▸ hq⟩
  · intro hp
    exact getElem?_insertAll_of_mem hd hp _

/-- A listing in the order of its keys is the one of the map it makes. -/
theorem toList_insertAll {l : List (α × β)} (h : l.Pairwise fun p q => cmp p.1 q.1 = .lt) :
    (insertAll (∅ : ExtTreeMap α β cmp) l).toList = l := by
  have hne : ∀ {a b : α}, cmp a b = .lt → a ≠ b := by
    rintro a b hlt rfl
    have heq : cmp a a = .eq := ReflCmp.compare_self
    rw [heq] at hlt
    cases hlt
  have hd : Distinct l := by
    rw [Distinct, List.nodup_iff_pairwise_ne, List.pairwise_map]
    exact h.imp hne
  refine List.Perm.eq_of_pairwise ?_ ExtTreeMap.ordered_keys_toList h (toList_insertAll_perm hd)
  intro p q _ _ hpq hqp
  exact absurd rfl (hne (TransCmp.lt_trans hpq hqp))

omit [DecidableEq α] in
theorem lookup_of_mem [BEq α] [LawfulBEq α] {l : List (α × β)} (hd : Distinct l) {k : α} {v : β} (h : (k, v) ∈ l) : l.lookup k = some v := by
  induction l with
  | nil => cases h
  | cons p l ih =>
    obtain ⟨hp, hl⟩ := List.nodup_cons.1 hd
    rw [List.lookup_cons]
    rcases List.mem_cons.1 h with rfl | h
    · simp
    · have hne : k ≠ p.1 := fun he => hp (List.mem_map.2 ⟨(k, v), h, he⟩)
      rw [beq_eq_false_iff_ne.2 hne]
      exact ih hl h

omit [DecidableEq α] in
theorem lookup_toList [BEq α] [LawfulBEq α] (m : ExtTreeMap α β cmp) (k : α) : m.toList.lookup k = m[k]? := by
  cases hk : m[k]? with
  | some v => exact lookup_of_mem (distinct_toList m) (ExtTreeMap.mem_toList_iff_getElem?_eq_some.2 hk)
  | none =>
    rw [List.lookup_eq_none_iff]
    intro p hp
    simp only [bne_iff_ne, ne_eq]
    rintro rfl
    have := ExtTreeMap.mem_toList_iff_getElem?_eq_some.1 hp
    rw [hk] at this
    cases this

/-- A listing with one entry put in front. -/
theorem toList_perm_erase {m : ExtTreeMap α β cmp} {k : α} {v : β} (h : m[k]? = some v) :
    m.toList.Perm ((k, v) :: (m.erase k).toList) := by
  refine (List.perm_ext_iff_of_nodup (nodup_toList m) ?_).2 ?_
  · refine List.nodup_cons.2 ⟨fun hm => ?_, nodup_toList _⟩
    have hk := ExtTreeMap.mem_toList_iff_getElem?_eq_some.1 hm
    rw [getElem?_erase, if_pos rfl] at hk
    cases hk
  · rintro ⟨a, b⟩
    rw [List.mem_cons, ExtTreeMap.mem_toList_iff_getElem?_eq_some, ExtTreeMap.mem_toList_iff_getElem?_eq_some,
      getElem?_erase]
    by_cases hk : k = a
    · subst hk
      simp [h, eq_comm]
    · simp [hk, Ne.symm hk]

/-- Of a listing, what one entry gives when the others give nothing. -/
theorem filterMap_one {m : ExtTreeMap α β cmp} {l : List (α × β)} (hp : l.Perm m.toList) {k : α} {v : β} (h : m[k]? = some v)
    {f : α × β → Option γ} (hf : ∀ p, p.1 ≠ k → f p = none) : l.filterMap f = (f (k, v)).toList := by
  have hrest : (m.erase k).toList.filterMap f = [] := by
    refine List.filterMap_eq_nil_iff.2 fun p hmem => hf p ?_
    rintro rfl
    have hget := ExtTreeMap.mem_toList_iff_getElem?_eq_some.1 hmem
    simp at hget
  have hperm := (hp.trans (toList_perm_erase h)).filterMap f
  rw [List.filterMap_cons, hrest] at hperm
  cases hfk : f (k, v) with
  | none =>
    rw [hfk] at hperm
    exact hperm.eq_nil
  | some c =>
    rw [hfk] at hperm
    exact List.perm_singleton.1 hperm

theorem toList_insert_perm {m : ExtTreeMap α β cmp} {k : α} (v : β) :
    (m.insert k v).toList.Perm ((k, v) :: (m.erase k).toList) := by
  have hk : (m.insert k v)[k]? = some v := by rw [getElem?_insert, if_pos rfl]
  have he : (m.insert k v).erase k = m.erase k := by
    refine ExtTreeMap.ext_getElem? fun a => ?_
    rw [getElem?_erase, getElem?_erase, getElem?_insert]
    split <;> rfl
  have hp := toList_perm_erase hk
  rwa [he] at hp

/-! ## Sizes -/

omit [LawfulEqCmp cmp] [DecidableEq α] in
theorem size_insert_of_some {m : ExtTreeMap α β cmp} {k : α} {v : β} (h : m[k]? = some v) (v' : β) :
    (m.insert k v').size = m.size := by
  have hc : m.contains k = true := by
    rw [ExtTreeMap.contains_eq_isSome_getElem?, h]
    rfl
  rw [ExtTreeMap.size_insert, hc]
  rfl

omit [LawfulEqCmp cmp] [DecidableEq α] in
theorem size_insert_of_none {m : ExtTreeMap α β cmp} {k : α} (h : m[k]? = none) (v : β) :
    (m.insert k v).size = m.size + 1 := by
  have hc : m.contains k = false := by
    rw [ExtTreeMap.contains_eq_isSome_getElem?, h]
    rfl
  rw [ExtTreeMap.size_insert, hc]
  rfl

omit [LawfulEqCmp cmp] [DecidableEq α] in
theorem size_erase_of_some {m : ExtTreeMap α β cmp} {k : α} {v : β} (h : m[k]? = some v) :
    (m.erase k).size + 1 = m.size := by
  have hc : m.contains k = true := by
    rw [ExtTreeMap.contains_eq_isSome_getElem?, h]
    rfl
  have hpos : m.size ≠ 0 := by
    intro h0
    rw [ExtTreeMap.eq_empty_iff_size_eq_zero.2 h0] at hc
    simp at hc
  rw [ExtTreeMap.size_erase, hc]
  simp only [if_true]
  omega

/-! ## A map rebuilt entry by entry -/

/-- A listing of `m`, each entry sent through `f`, rebuilds `m` sent through `f`. -/
theorem getElem?_insertAll_filterMap {m : ExtTreeMap α β cmp} {l : List (α × β)} (hp : l.Perm m.toList)
    (f : α → β → Option γ) (k : α) :
    (insertAll (∅ : ExtTreeMap α γ cmp) (l.filterMap fun p => (f p.1 p.2).map fun v => (p.1, v)))[k]? = m[k]?.bind (f k) := by
  have hd : Distinct (l.filterMap fun p => (f p.1 p.2).map fun v => (p.1, v)) := ((distinct_toList m).perm hp).filterMap f
  have hmem : ∀ v, (k, v) ∈ l ↔ m[k]? = some v := fun v =>
    hp.mem_iff.trans ExtTreeMap.mem_toList_iff_getElem?_eq_some
  cases hk : m[k]?.bind (f k) with
  | some u =>
    obtain ⟨v, hv, hf⟩ := Option.bind_eq_some_iff.1 hk
    refine getElem?_insertAll_of_mem hd (List.mem_filterMap.2 ⟨(k, v), (hmem v).2 hv, ?_⟩) _
    simp [hf]
  | none =>
    rw [getElem?_insertAll_of_notMem]
    · simp
    · rintro q hq rfl
      obtain ⟨⟨a, v⟩, hr, hfr⟩ := List.mem_filterMap.1 hq
      obtain ⟨u, hu, rfl⟩ := Option.map_eq_some_iff.1 hfr
      rw [(hmem v).1 hr, Option.bind_some, hu] at hk
      cases hk

theorem getElem?_insertAll_map {m : ExtTreeMap α β cmp} {l : List (α × β)} (hp : l.Perm m.toList) (f : β → γ) (k : α) :
    (insertAll (∅ : ExtTreeMap α γ cmp) (l.map fun p => (p.1, f p.2)))[k]? = m[k]?.map f := by
  have h := getElem?_insertAll_filterMap hp (fun _ v => some (f v)) k
  simp only [Option.map_some, List.filterMap_eq_map'] at h
  rw [h]
  cases m[k]? <;> rfl

end

end OrdMap
