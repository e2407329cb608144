import Mathlib.Data.List.Forall2
import Mathlib.Data.List.Perm.Basic
import Mathlib.Tactic.Common
/-!
# Lists

A list in which the records of each writer stay in that writer's order and a lower-numbered writer's
records come first is the writers' own lists one after the other (`map_eq_flatMap_of_sorted`). Lists
related element by element, and `mapM` into `Option` as such a relation.
-/
namespace Lists

variable {α β : Type}

theorem mem_take_set {l : List α} {i n : Nat} {a x : α} (h : x ∈ (l.set i a).take n) :
    x ∈ l.take n ∨ (x = a ∧ i < n) := by
  rw [List.take_set] at h
  by_cases hi : i < n
  · rcases List.mem_or_eq_of_mem_set h with h | h
    · exact Or.inl h
    · exact Or.inr ⟨h, hi⟩
  · rw [List.set_eq_of_length_le (by simp; omega)] at h
    exact Or.inl h

/-- One element of a list put in place of another. -/
theorem cons_set_perm {l : List α} {i : Nat} {a b : α} (h : l[i]? = some a) : (a :: l.set i b).Perm (b :: l) := by
  obtain ⟨hi, rfl⟩ := List.getElem?_eq_some_iff.1 h
  have hset : (l[i] :: l.set i b).Perm (l[i] :: b :: l.eraseIdx i) := (List.set_perm_cons_eraseIdx hi b).cons _
  have hget : (b :: l[i] :: l.eraseIdx i).Perm (b :: l) := (List.getElem_cons_eraseIdx_perm hi).cons _
  exact hset.trans ((List.Perm.swap ..).trans hget)

/-- What the elements of a list stand for, when one is put in place of another. -/
theorem filterMap_set_perm (f : α → Option β) {l : List α} {i : Nat} {a b : α} (h : l[i]? = some a) :
    ((f a).toList ++ (l.set i b).filterMap f).Perm ((f b).toList ++ l.filterMap f) := by
  have hperm := (cons_set_perm (b := b) h).filterMap f
  cases ha : f a <;> cases hb : f b <;> simpa [List.filterMap_cons, ha, hb] using hperm

theorem mem_take_of_getElem? {l : List α} {i n : Nat} {a : α} (h : l[i]? = some a) (hi : i < n) : a ∈ l.take n := by
  refine List.mem_of_getElem? (i := i) ?_
  rw [List.getElem?_take_of_lt hi, h]

/-- A sorted list ends with its greatest elements. -/
theorem filter_lt_append_filter_eq {f : α → Nat} {n : Nat} {l : List α} (hs : l.Pairwise fun a b => f a ≤ f b)
    (hn : ∀ a ∈ l, f a ≤ n) : (l.filter fun a => f a < n) ++ (l.filter fun a => f a = n) = l := by
  induction l with
  | nil => rfl
  | cons a l ih =>
    obtain ⟨ha, hs⟩ := List.pairwise_cons.1 hs
    have hrest := ih hs fun b hb => hn b (by simp [hb])
    by_cases hlt : f a < n
    · rw [List.filter_cons_of_pos (by simpa using hlt), List.filter_cons_of_neg (by simp; omega), List.cons_append, hrest]
    · have heq : f a = n := by
        have := hn a (by simp)
        omega
      have hnone : (l.filter fun b => f b < n) = [] := by
        rw [List.filter_eq_nil_iff]
        intro b hb
        have := ha b hb
        simp only [decide_eq_true_eq]
        omega
      rw [hnone, List.nil_append] at hrest
      rw [List.filter_cons_of_neg (by simpa using hlt), List.filter_cons_of_pos (by simpa using heq), hnone, hrest]
      rfl

theorem eq_flatMap_range {f : α → Nat} {n : Nat} {l : List α} (hs : l.Pairwise fun a b => f a ≤ f b)
    (hn : ∀ a ∈ l, f a < n) : l = (List.range n).flatMap fun i => l.filter fun a => f a = i := by
  induction n generalizing l with
  | zero =>
    cases l with
    | nil => rfl
    | cons a l => exact absurd (hn a (by simp)) (Nat.not_lt_zero _)
  | succ n ih =>
    rw [List.range_succ, List.flatMap_append, List.flatMap_singleton]
    have hlow := ih (l := l.filter fun a => f a < n) (hs.sublist List.filter_sublist) fun a ha => by
      simpa using (List.mem_filter.1 ha).2
    have hsame : ((List.range n).flatMap fun i => (l.filter fun a => f a < n).filter fun a => f a = i) =
        (List.range n).flatMap fun i => l.filter fun a => f a = i := by
      rw [List.flatMap_def, List.flatMap_def]
      refine congrArg List.flatten (List.map_congr_left fun i hi => ?_)
      rw [List.filter_filter]
      refine List.filter_congr fun a _ => ?_
      have := List.mem_range.1 hi
      by_cases h : f a = i
      · simp [h, this]
      · simp [h]
    rw [← hsame, ← hlow]
    exact (filter_lt_append_filter_eq hs fun a ha => Nat.le_of_lt_succ (hn a ha)).symm

/-- **A sorted list is the concatenation of its parts**, one for each writer. -/
theorem map_eq_flatMap_of_sorted {γ : Type} {f : α → Nat} {h : α → γ} {l : List α} {cs : List β} {g : β → List γ}
    (hs : l.Pairwise fun a b => f a ≤ f b) (hn : ∀ a ∈ l, f a < cs.length)
    (hpart : ∀ (i : Nat) (c : β), cs[i]? = some c → (l.filter fun a => f a = i).map h = g c) :
    l.map h = cs.flatMap g := by
  have hzip : cs.flatMap g = cs.zipIdx.flatMap fun p => (l.filter fun a => f a = p.2).map h := by
    have hfst : cs.flatMap g = (cs.zipIdx.map Prod.fst).flatMap g := by rw [List.zipIdx_map_fst]
    rw [hfst, List.flatMap_map, List.flatMap_def, List.flatMap_def]
    refine congrArg List.flatten (List.map_congr_left fun p hp => ?_)
    exact (hpart p.2 p.1 (List.mk_mem_zipIdx_iff_getElem?.1 hp)).symm
  have hrange : (List.range cs.length).flatMap (fun i => (l.filter fun a => f a = i).map h) =
      cs.zipIdx.flatMap fun p => (l.filter fun a => f a = p.2).map h := by
    have hsnd : cs.zipIdx.map Prod.snd = List.range cs.length := by simp [List.range_eq_range']
    rw [← hsnd, List.flatMap_map]
  rw [hzip, ← hrange, ← List.map_flatMap]
  exact congrArg (List.map h) (eq_flatMap_range hs hn)

theorem rel_getLast? {R : α → β → Prop} {l : List α} {m : List β} (h : List.Forall₂ R l m) :
    Option.Rel R l.getLast? m.getLast? := by
  rw [← List.head?_reverse, ← List.head?_reverse]
  have hr := List.rel_reverse h
  revert hr
  generalize l.reverse = l'
  generalize m.reverse = m'
  intro hr
  cases hr with
  | nil => exact .none
  | cons h _ => exact .some h

theorem mem_of_forall₂ {R : α → β → Prop} {l : List α} {m : List β} (h : List.Forall₂ R l m) :
    (∀ a ∈ l, ∃ b ∈ m, R a b) ∧ ∀ b ∈ m, ∃ a ∈ l, R a b := by
  induction h with
  | nil => simp
  | cons hab _ ih =>
    refine ⟨fun a ha => ?_, fun b hb => ?_⟩
    · rcases List.mem_cons.1 ha with rfl | ha
      · exact ⟨_, by simp, hab⟩
      · obtain ⟨b, hb, hr⟩ := ih.1 a ha
        exact ⟨b, by simp [hb], hr⟩
    · rcases List.mem_cons.1 hb with rfl | hb
      · exact ⟨_, by simp, hab⟩
      · obtain ⟨a, ha, hr⟩ := ih.2 b hb
        exact ⟨a, by simp [ha], hr⟩

/-! ## `mapM` -/

theorem mapM_eq_some_cons {f : α → Option β} {a : α} {l : List α} {bs : List β}
    (h : (a :: l).mapM f = some bs) : ∃ b bs', bs = b :: bs' ∧ f a = some b ∧ l.mapM f = some bs' := by
  rw [List.mapM_cons] at h
  simp only [Option.pure_def, Option.bind_eq_bind] at h
  obtain ⟨b, hb, h⟩ := Option.bind_eq_some_iff.1 h
  obtain ⟨bs', hbs, h⟩ := Option.bind_eq_some_iff.1 h
  cases h
  exact ⟨b, bs', rfl, hb, hbs⟩

theorem forall₂_of_mapM {f : α → Option β} {l : List α} {bs : List β} (h : l.mapM f = some bs) :
    List.Forall₂ (fun a b => f a = some b) l bs := by
  induction l generalizing bs with
  | nil => cases h; exact .nil
  | cons a l ih =>
    obtain ⟨b, bs, rfl, hb, hbs⟩ := mapM_eq_some_cons h
    exact .cons hb (ih hbs)

theorem mapM_isSome {f : α → Option β} {l : List α} (h : ∀ a ∈ l, (f a).isSome = true) :
    ∃ bs, l.mapM f = some bs := by
  induction l with
  | nil => exact ⟨[], rfl⟩
  | cons a l ih =>
    obtain ⟨b, hb⟩ := Option.isSome_iff_exists.1 (h a (by simp))
    obtain ⟨bs, hbs⟩ := ih fun x hx => h x (by simp [hx])
    exact ⟨b :: bs, by simp [List.mapM_cons, hb, hbs]⟩

theorem isSome_mapM_iff {f : α → Option β} {l : List α} : (l.mapM f).isSome ↔ ∀ a ∈ l, (f a).isSome := by
  constructor
  · intro h a ha
    obtain ⟨bs, hbs⟩ := Option.isSome_iff_exists.1 h
    obtain ⟨b, -, hb⟩ := (mem_of_forall₂ (forall₂_of_mapM hbs)).1 a ha
    rw [hb]
    rfl
  · intro h
    obtain ⟨bs, hbs⟩ := mapM_isSome h
    rw [hbs]
    rfl

theorem mapM_eq_some_map {f : α → Option β} {g : α → β} {l : List α} (h : ∀ a ∈ l, f a = some (g a)) :
    l.mapM f = some (l.map g) := by
  induction l with
  | nil => rfl
  | cons a l ih => simp [List.mapM_cons, h a (by simp), ih fun x hx => h x (by simp [hx])]

theorem mapM_congr {f g : α → Option β} {l : List α} (h : ∀ a ∈ l, f a = g a) : l.mapM f = l.mapM g := by
  induction l with
  | nil => rfl
  | cons a l ih => rw [List.mapM_cons, List.mapM_cons, h a (by simp), ih fun x hx => h x (by simp [hx])]

end Lists
