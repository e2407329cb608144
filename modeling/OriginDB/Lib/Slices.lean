import Mathlib.Tactic.Common
/-!
# Cutting a stream into items

An item of a stream says in its first elements how long it is: `Delimiter.size` does not know before they are there, and
does not change its mind when more come. A reader that takes the stream in chunks, and cuts off an item as soon as all
of it is there, cuts the stream into the same items however it came in chunks (`Feeds.cuts`). It stops behind an item
that is `last`.
-/

structure Delimiter (α : Type) where
  size : List α → Option Nat
  pos : ∀ {l n}, size l = some n → 0 < n
  stable : ∀ {l n} (r : List α), size l = some n → size (l ++ r) = some n

namespace Delimiter

section
variable {α : Type} (d : Delimiter α) (last : List α → Prop)

/-- An item is at the front, and all of it is there. -/
def Ready (l : List α) (n : Nat) : Prop := d.size l = some n ∧ n ≤ l.length

/-- The items cut off one by one, what is left, and whether a last one was among them. -/
inductive Cuts : List α → List (List α) → List α → Bool → Prop
  | short {l : List α} (h : ∀ n, ¬ d.Ready l n) : Cuts l [] l false
  | stop {l : List α} {n : Nat} (h : d.Ready l n) (hlast : last (l.take n)) : Cuts l [l.take n] (l.drop n) true
  | item {l : List α} {n : Nat} {items : List (List α)} {rest : List α} {stopped : Bool} (h : d.Ready l n)
      (hmore : ¬ last (l.take n)) (hrest : Cuts (l.drop n) items rest stopped) : Cuts l (l.take n :: items) rest stopped

/-- The same, of a stream that comes in chunks. -/
inductive Feeds : List α → List (List α) → List (List α) → Bool → Prop
  | done (pending : List α) : Feeds pending [] [] false
  | stop {pending chunk rest : List α} {chunks items : List (List α)}
      (h : d.Cuts last (pending ++ chunk) items rest true) : Feeds pending (chunk :: chunks) items true
  | more {pending chunk rest : List α} {chunks items items' : List (List α)} {stopped : Bool}
      (h : d.Cuts last (pending ++ chunk) items rest false) (hrest : Feeds rest chunks items' stopped) :
      Feeds pending (chunk :: chunks) (items ++ items') stopped

/-- The second list is what is left of the first after some items. -/
inductive Begins : List α → List α → Prop
  | here (l : List α) : Begins l l
  | after {l rest : List α} {n : Nat} (h : d.Ready l n) (hrest : Begins (l.drop n) rest) : Begins l rest

/-- No item is longer, not even one that is not all there. -/
def Within (limit : Nat) (l : List α) : Prop := ∀ rest n, d.Begins l rest → d.size rest = some n → n ≤ limit

end

section
variable {α : Type} {d : Delimiter α} {last : List α → Prop} {l r rest : List α} {n m limit : Nat}
  {items items' chunks : List (List α)} {stopped : Bool}

/-! ## One item -/

theorem Ready.unique (h : d.Ready l n) (h' : d.Ready l m) : n = m := Option.some.inj (h.1.symm.trans h'.1)

theorem Ready.append (h : d.Ready l n) (r : List α) : d.Ready (l ++ r) n := by
  refine ⟨d.stable r h.1, ?_⟩
  rw [List.length_append]
  exact Nat.le_trans h.2 (Nat.le_add_right _ _)

theorem Ready.take_append (h : d.Ready l n) (r : List α) : (l ++ r).take n = l.take n :=
  List.take_append_of_le_length h.2

theorem Ready.drop_append (h : d.Ready l n) (r : List α) : (l ++ r).drop n = l.drop n ++ r :=
  List.drop_append_of_le_length h.2

theorem Ready.length_drop (h : d.Ready l n) : (l.drop n).length < l.length := by
  have hpos := d.pos h.1
  have hle := h.2
  rw [List.length_drop]
  omega

/-! ## All items -/

theorem Cuts.unique {rest' : List α} {stopped' : Bool} (h : d.Cuts last l items rest stopped)
    (h' : d.Cuts last l items' rest' stopped') : items = items' ∧ rest = rest' ∧ stopped = stopped' := by
  induction h generalizing items' with
  | short hshort =>
    cases h' with
    | short => exact ⟨rfl, rfl, rfl⟩
    | stop h' => exact absurd h' (hshort _)
    | item h' => exact absurd h' (hshort _)
  | stop h hlast =>
    cases h' with
    | short hshort => exact absurd h (hshort _)
    | stop h' =>
      cases h.unique h'
      exact ⟨rfl, rfl, rfl⟩
    | item h' hmore =>
      cases h.unique h'
      exact absurd hlast hmore
  | item h hmore hrest ih =>
    cases h' with
    | short hshort => exact absurd h (hshort _)
    | stop h' hlast =>
      cases h.unique h'
      exact absurd hlast hmore
    | item h' _ hrest' =>
      cases h.unique h'
      obtain ⟨rfl, rfl, rfl⟩ := ih hrest'
      exact ⟨rfl, rfl, rfl⟩

/-- More behind a list that is cut without a last item is cut further. -/
theorem Cuts.append {rest' : List α} (h : d.Cuts last l items rest false) (h' : d.Cuts last (rest ++ r) items' rest' stopped) :
    d.Cuts last (l ++ r) (items ++ items') rest' stopped := by
  generalize hs : false = stopped' at h
  induction h with
  | short => exact h'
  | stop => cases hs
  | @item l n items rest stopped' hready hmore _ ih =>
    have hcut := ih h' hs
    rw [← hready.drop_append r] at hcut
    rw [List.cons_append, ← hready.take_append r]
    exact Cuts.item (hready.append r) (by rwa [hready.take_append r]) hcut

/-- And nothing of it is looked at behind a last one. -/
theorem Cuts.append_stopped (h : d.Cuts last l items rest true) (r : List α) : d.Cuts last (l ++ r) items (rest ++ r) true := by
  generalize hs : true = stopped' at h
  induction h with
  | short => cases hs
  | stop hready hlast =>
    rw [← hready.take_append r, ← hready.drop_append r]
    exact Cuts.stop (hready.append r) (by rwa [hready.take_append r])
  | @item l n items rest stopped' hready hmore _ ih =>
    have hcut := ih hs
    rw [← hready.drop_append r] at hcut
    rw [← hready.take_append r]
    exact Cuts.item (hready.append r) (by rwa [hready.take_append r]) hcut

/-- What is left without a last item is less than an item. -/
theorem Cuts.rest_short (h : d.Cuts last l items rest false) : ∀ n, ¬ d.Ready rest n := by
  generalize hs : false = stopped' at h
  induction h with
  | short hshort => exact hshort
  | stop => cases hs
  | item _ _ _ ih => exact ih hs

theorem Cuts.begins (h : d.Cuts last l items rest stopped) : d.Begins l rest := by
  induction h with
  | short => exact Begins.here _
  | stop hready => exact Begins.after hready (Begins.here _)
  | item hready _ _ ih => exact Begins.after hready ih

/-- **The items do not depend on the chunks.** -/
theorem Feeds.cuts {pending : List α} (h : d.Feeds last pending chunks items stopped) (hpending : ∀ n, ¬ d.Ready pending n) :
    ∃ rest, d.Cuts last (pending ++ chunks.flatten) items rest stopped := by
  induction h with
  | done pending =>
    refine ⟨pending, ?_⟩
    rw [List.flatten_nil, List.append_nil]
    exact Cuts.short hpending
  | @stop pending chunk rest chunks items h =>
    refine ⟨rest ++ chunks.flatten, ?_⟩
    rw [List.flatten_cons, ← List.append_assoc]
    exact h.append_stopped _
  | @more pending chunk rest chunks items items' stopped h _ ih =>
    obtain ⟨rest', hrest⟩ := ih h.rest_short
    refine ⟨rest', ?_⟩
    rw [List.flatten_cons, ← List.append_assoc]
    exact h.append hrest

/-! ## Where items begin -/

theorem Begins.trans {rest' : List α} (h : d.Begins l rest) (h' : d.Begins rest rest') : d.Begins l rest' := by
  induction h with
  | here => exact h'
  | after hready _ ih => exact Begins.after hready (ih h')

/-- An item begins in the same place when more comes. -/
theorem Begins.append (h : d.Begins l rest) (r : List α) : d.Begins (l ++ r) (rest ++ r) := by
  induction h with
  | here => exact Begins.here _
  | after hready _ ih =>
    rw [← hready.drop_append r] at ih
    exact Begins.after (hready.append r) ih

theorem Within.of_begins (h : d.Within limit l) (hrest : d.Begins l rest) : d.Within limit rest :=
  fun rest' n hbegins hsize => h rest' n (hrest.trans hbegins) hsize

/-- The bound of a stream from those of its items. -/
theorem Within.item (h : d.Ready l n) (hn : n ≤ limit) (hrest : d.Within limit (l.drop n)) : d.Within limit l := by
  intro rest m hbegins hsize
  cases hbegins with
  | here =>
    cases h.1.symm.trans hsize
    exact hn
  | after h' hbegins =>
    cases h.unique h'
    exact hrest rest m hbegins hsize

theorem Within.short (h : ∀ n, ¬ d.Ready l n) (hn : ∀ n, d.size l = some n → n ≤ limit) : d.Within limit l := by
  intro rest m hbegins hsize
  cases hbegins with
  | here => exact hn m hsize
  | after h' => exact absurd h' (h _)

theorem Within.mono (h : d.Within limit l) (hle : limit ≤ m) : d.Within m l :=
  fun rest n hbegins hsize => Nat.le_trans (h rest n hbegins hsize) hle

theorem Within.of_append (h : d.Within limit (l ++ r)) : d.Within limit l :=
  fun rest n hbegins hsize => h (rest ++ r) n (hbegins.append r) (d.stable r hsize)

end

end Delimiter
