import OriginDB.Lib.OrdMap
/-!
# Scanning a map under a layer of writes

A layer holds values and tombstones over a map (`layered`), and a lookup is the layer's where it has the key
(`getElem?_layered`).

Keys that are lists are ordered lexicographically. Those that begin with `p` are not below `p` and are below every list that
leaves `p` for a greater element (`compare_prefix_ne_lt`, `compare_greater_eq_lt`). So a scan that drops what is below `p` and
stops past such a bound keeps every entry with the prefix (`filter_dropWhile`, `filter_takeWhile`).
-/
namespace OrdMap

open Std

/-! ## Layers -/

section
variable {α β γ : Type} {cmp : α → α → Ordering} [TransCmp cmp] [LawfulEqCmp cmp] [DecidableEq α]

/-- A write, or a tombstone. -/
def put (m : ExtTreeMap α β cmp) (k : α) : Option β → ExtTreeMap α β cmp
  | some v => m.insert k v
  | none => m.erase k

/-- One after the other. -/
def overwrite (m : ExtTreeMap α β cmp) (l : List (α × Option β)) : ExtTreeMap α β cmp :=
  l.foldl (fun m p => put m p.1 p.2) m

/-- A map with a layer over it. -/
def layered (m : ExtTreeMap α β cmp) (layer : ExtTreeMap α (Option β) cmp) : ExtTreeMap α β cmp := overwrite m layer.toList

theorem getElem?_put (m : ExtTreeMap α β cmp) (a : α) (v : Option β) (k : α) :
    (put m a v)[k]? = if a = k then v else m[k]? := by
  cases v with
  | some v => exact getElem?_insert m a k v
  | none => exact getElem?_erase m a k

theorem getElem?_overwrite {l : List (α × Option β)} (hd : Distinct l) (m : ExtTreeMap α β cmp) (k : α) :
    (overwrite m l)[k]? = (l.lookup k).getD m[k]? := by
  induction l generalizing m with
  | nil => rfl
  | cons p l ih =>
    obtain ⟨a, v⟩ := p
    obtain ⟨ha, hl⟩ := List.nodup_cons.1 hd
    have hfold : overwrite m ((a, v) :: l) = overwrite (put m a v) l := rfl
    rw [hfold, ih hl, getElem?_put, List.lookup_cons]
    by_cases hk : a = k
    · subst hk
      have hnone : l.lookup a = none := by
        rw [List.lookup_eq_none_iff]
        intro q hq
        simp only [bne_iff_ne, ne_eq]
        rintro rfl
        exact ha (List.mem_map.2 ⟨q, hq, rfl⟩)
      simp [hnone]
    · rw [if_neg hk, beq_eq_false_iff_ne.2 (Ne.symm hk)]

/-- **The layer hides what is under it.** -/
theorem getElem?_layered (m : ExtTreeMap α β cmp) (layer : ExtTreeMap α (Option β) cmp) (k : α) :
    (layered m layer)[k]? = (layer[k]?).getD m[k]? := by
  rw [layered, getElem?_overwrite (distinct_toList layer), lookup_toList]

omit [LawfulEqCmp cmp] [DecidableEq α] in
/-- A loop that puts one write after the other, each with another value. -/
theorem foldlM_put {δ : Type} {f : δ → β} {step : ExtTreeMap α β cmp → α × Option δ → Option (ExtTreeMap α β cmp)}
    {l : List (α × Option δ)} (h : ∀ p ∈ l, ∀ m, step m p = some (put m p.1 (p.2.map f))) (m : ExtTreeMap α β cmp) :
    l.foldlM step m = some (overwrite m (l.map fun p => (p.1, p.2.map f))) := by
  induction l generalizing m with
  | nil => rfl
  | cons p l ih =>
    rw [List.foldlM_cons, h p List.mem_cons_self]
    exact ih (fun q hq => h q (List.mem_cons_of_mem _ hq)) _

/-- Part of both, with other values, is part of the layered map, with other values. -/
theorem layered_filter_map (m : ExtTreeMap α β cmp) (layer : ExtTreeMap α (Option β) cmp) (p : α → Bool) (f : β → γ) :
    layered ((m.filter fun k _ => p k).map fun _ v => f v) ((layer.filter fun k _ => p k).map fun _ v => v.map f) =
      ((layered m layer).filter fun k _ => p k).map fun _ v => f v := by
  refine ExtTreeMap.ext_getElem? fun k => ?_
  simp only [getElem?_layered, ExtTreeMap.getElem?_map, ExtTreeMap.getElem?_filter']
  cases hp : p k with
  | true => rcases layer[k]? with _ | _ | v <;> cases m[k]? <;> simp [Option.filter]
  | false => rcases layer[k]? with _ | _ | v <;> cases m[k]? <;> simp [Option.filter]

end

/-! ## Prefixes in the lexicographic order -/

section
variable {α : Type} [Ord α] [ReflOrd α]

theorem compare_prefix_ne_lt {p k : List α} (h : p <+: k) : compare k p ≠ .lt := by
  obtain ⟨t, rfl⟩ := h
  induction p with
  | nil => cases t <;> simp
  | cons x p ih =>
    rw [List.cons_append, List.compare_cons_cons, ReflOrd.compare_self]
    exact ih

theorem compare_greater_eq_lt (l : List α) {c d : α} (h : compare c d = .lt) (t t' : List α) :
    compare (l ++ c :: t) (l ++ d :: t') = .lt := by
  induction l with
  | nil => rw [List.nil_append, List.nil_append, List.compare_cons_cons, h]; rfl
  | cons x l ih =>
    rw [List.cons_append, List.cons_append, List.compare_cons_cons, ReflOrd.compare_self]
    exact ih

end

/-! ## Part of an ordered list -/

section
variable {α : Type} {l : List α} {f q : α → Bool}

theorem filter_dropWhile (h : ∀ x ∈ l, f x = true → q x = false) : (l.dropWhile q).filter f = l.filter f := by
  induction l with
  | nil => rfl
  | cons x l ih =>
    cases hq : q x with
    | false => rw [List.dropWhile_cons_of_neg (by simp [hq])]
    | true =>
      have hf : f x ≠ true := fun hf => by
        have hno := h x List.mem_cons_self hf
        rw [hq] at hno
        cases hno
      rw [List.dropWhile_cons_of_pos hq, List.filter_cons_of_neg hf, ih fun y hy => h y (List.mem_cons_of_mem _ hy)]

/-- What is past the first that ends the scan is not wanted either. -/
theorem filter_takeWhile {r : α → α → Prop} (hr : l.Pairwise r)
    (h : ∀ x ∈ l, q x = false → f x = false ∧ ∀ y, r x y → f y = false) : (l.takeWhile q).filter f = l.filter f := by
  induction l with
  | nil => rfl
  | cons x l ih =>
    obtain ⟨hx, hl⟩ := List.pairwise_cons.1 hr
    cases hq : q x with
    | true =>
      have hmore := ih hl fun y hy => h y (List.mem_cons_of_mem _ hy)
      rw [List.takeWhile_cons_of_pos hq, List.filter_cons, List.filter_cons, hmore]
    | false =>
      obtain ⟨hfx, hrest⟩ := h x List.mem_cons_self hq
      have hnone : l.filter f = [] := by
        rw [List.filter_eq_nil_iff]
        intro y hy
        simp [hrest y (hx y hy)]
      rw [List.takeWhile_cons_of_neg (by simp [hq]), List.filter_cons_of_neg (by simp [hfx]), hnone]
      rfl

end

end OrdMap
