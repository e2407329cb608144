import OriginDB.Lib.Respelling
/-!
# Patterns with words

A pattern is `Worded` if outside its groups it has only words of a list, and classes of characters that are the image of
nothing but themselves. What it finds is decided by the image of the text and by where the words stand in the text
(`search_of_sameWords`), and outside its groups a match has nothing but words and such characters (`word_of_between`).
-/
namespace Regex

open ByteCodec

variable {f : UInt8 → UInt8} {ws : List Bytes}

/-- No character has the image of one of the class but itself. -/
def Sole (f : UInt8 → UInt8) (q : UInt8 → Bool) : Prop := ∀ c, q c = true → ∀ x, f x = c → x = c

/-- Words of `ws`, and classes that are blind and sole; within the groups blind patterns. -/
inductive Pattern.Worded (f : UInt8 → UInt8) (ws : List Bytes) : Pattern → Prop
  | empty : Worded f ws .empty
  | atEnd : Worded f ws .atEnd
  | char {q} (hblind : Regex.Blind f q) (hsole : Sole f q) : Worded f ws (.char q)
  | many {greedy q} (hblind : Regex.Blind f q) (hsole : Sole f q) : Worded f ws (.many greedy q)
  | word {w} (hw : w ∈ ws) : Worded f ws (.lit w)
  | group {n a} (ha : a.Blind f) : Worded f ws (.group n a)
  | seq {a b} (ha : a.Worded f ws) (hb : b.Worded f ws) : Worded f ws (.seq a b)
  | alt {a b} (ha : a.Worded f ws) (hb : b.Worded f ws) : Worded f ws (.alt a b)

/-- The words stand at the same places. -/
def SameWords (ws : List Bytes) (s t : Bytes) : Prop := ∀ w ∈ ws, ∀ i, w <+: s.drop i ↔ w <+: t.drop i

theorem run_lit (w : Bytes) (c : Cursor) :
    run (.lit w) c = if w <+: c.after then [⟨w.reverse ++ c.before, c.after.drop w.length, c.groups⟩] else [] := by
  induction w generalizing c with
  | nil => simp [Pattern.lit, run]
  | cons x w ih =>
    obtain ⟨l, s, gs⟩ := c
    cases s with
    | nil => simp [Pattern.lit, run]
    | cons y s =>
      by_cases hxy : y = x
      · subst hxy
        simp [Pattern.lit, run, ih, List.cons_prefix_cons]
      · have hxy' : ¬ x = y := fun h => hxy h.symm
        simp [Pattern.lit, run, hxy, hxy', List.cons_prefix_cons]

/-! ## Two texts with one image -/

section
variable {p : Pattern} {c d : Cursor}

theorem flatMap_same {α β γ δ : Type} {φ : α → β} {ψ : γ → δ} {g : α → List γ} {l l' : List α} (hl : l.map φ = l'.map φ)
    (hg : ∀ x ∈ l, ∀ y ∈ l', φ x = φ y → (g x).map ψ = (g y).map ψ) : (l.flatMap g).map ψ = (l'.flatMap g).map ψ := by
  induction l generalizing l' with
  | nil =>
    obtain rfl : l' = [] := List.map_eq_nil_iff.1 hl.symm
    rfl
  | cons x l ih =>
    obtain ⟨y, l', rfl, hxy, hl'⟩ := List.map_eq_cons_iff.1 hl.symm
    rw [List.flatMap_cons, List.flatMap_cons, List.map_append, List.map_append,
      hg x List.mem_cons_self y List.mem_cons_self hxy.symm,
      ih hl'.symm fun x hx y hy => hg x (List.mem_cons_of_mem _ hx) y (List.mem_cons_of_mem _ hy)]

theorem run_of_image {a : Pattern} (ha : a.Blind f) {c c' : Cursor} (hmap : c.map f = c'.map f) :
    (run a c).map (Cursor.map f) = (run a c').map (Cursor.map f) := by
  rw [← run_map ha, ← run_map ha, hmap]

/-- **With the same image and the same words** a pattern goes the same ways. -/
theorem run_of_sameWords (h : p.Worded f ws) {c c' : Cursor} (hmap : c.map f = c'.map f)
    (hwords : SameWords ws (c.before.reverse ++ c.after) (c'.before.reverse ++ c'.after)) :
    (run p c).map (Cursor.map f) = (run p c').map (Cursor.map f) := by
  induction h generalizing c c' with
  | empty => exact run_of_image (a := .empty) trivial hmap
  | atEnd => exact run_of_image (a := .atEnd) trivial hmap
  | @char q hq _ => exact run_of_image (a := .char q) hq hmap
  | @many greedy q hq _ => exact run_of_image (a := .many greedy q) hq hmap
  | @group n a ha => exact run_of_image (a := .group n a) ha hmap
  | @word w hw =>
    obtain ⟨l, t, gs⟩ := c
    obtain ⟨l', t', gs'⟩ := c'
    simp only [Cursor.map_mk, Cursor.mk.injEq] at hmap hwords
    obtain ⟨hl, ht, rfl⟩ := hmap
    have hlen : l.length = l'.length := by simpa using congrArg List.length hl
    have hhere := hwords w hw l.length
    rw [List.drop_left' (by simp), List.drop_left' (by simp [hlen])] at hhere
    rw [run_lit, run_lit]
    by_cases hstands : w <+: t
    · rw [if_pos hstands, if_pos (hhere.1 hstands)]
      simp [hl, List.map_drop, ht]
    · rw [if_neg hstands, if_neg (hhere.not.1 hstands)]
  | @seq a b _ _ iha ihb =>
    rw [run, run]
    refine flatMap_same (iha hmap hwords) fun d hd d' hd' hdd => ?_
    rw [← text_run hd, ← text_run hd'] at hwords
    exact ihb hdd hwords
  | @alt a b _ _ iha ihb => rw [run, run, List.map_append, List.map_append, iha hmap hwords, ihb hmap hwords]

/-- The match of the first way at a place. -/
def matchHere (p : Pattern) (l r : Bytes) : Option Match :=
  (run p ⟨l, r, []⟩).head?.map fun d => ⟨l.length, d.before.length - l.length, d.groups⟩

theorem searchFrom_nil (p : Pattern) (l : Bytes) : searchFrom p l [] = matchHere p l [] := by
  rw [searchFrom, matchHere]
  cases run p ⟨l, [], []⟩ <;> rfl

theorem searchFrom_cons (p : Pattern) (l : Bytes) (x : UInt8) (r : Bytes) :
    searchFrom p l (x :: r) = (matchHere p l (x :: r)).or (searchFrom p (x :: l) r) := by
  rw [searchFrom, matchHere]
  cases run p ⟨l, x :: r, []⟩ <;> rfl

theorem matchHere_of_sameWords (h : p.Worded f ws) {l l' r r' : Bytes} (hl : l.map f = l'.map f) (hr : r.map f = r'.map f)
    (hwords : SameWords ws (l.reverse ++ r) (l'.reverse ++ r')) : matchHere p l r = matchHere p l' r' := by
  have hways : (run p ⟨l, r, []⟩).map (Cursor.map f) = (run p ⟨l', r', []⟩).map (Cursor.map f) :=
    run_of_sameWords h (by rw [Cursor.map_mk, Cursor.map_mk, hl, hr]) hwords
  have hlen : l.length = l'.length := by simpa using congrArg List.length hl
  have himage : ∀ l r : Bytes, matchHere p l r = ((run p ⟨l, r, []⟩).map (Cursor.map f)).head?.map fun d =>
      ⟨l.length, d.before.length - l.length, d.groups⟩ := by
    intro l r
    rw [matchHere, List.head?_map, Option.map_map]
    refine Option.map_congr fun d _ => ?_
    simp
  rw [himage, himage, hways, hlen]

/-- **And it finds the same.** -/
theorem search_of_sameWords (h : p.Worded f ws) {s t : Bytes} (hmap : s.map f = t.map f) (hwords : SameWords ws s t) :
    search p s = search p t := by
  have hfrom : ∀ l l' r r' : Bytes, l.map f = l'.map f → r.map f = r'.map f →
      SameWords ws (l.reverse ++ r) (l'.reverse ++ r') → searchFrom p l r = searchFrom p l' r' := by
    intro l l' r
    induction r generalizing l l' with
    | nil =>
      intro r' hl hr hsame
      have hhere := matchHere_of_sameWords h hl hr hsame
      obtain rfl : r' = [] := List.map_eq_nil_iff.1 hr.symm
      rw [searchFrom_nil, searchFrom_nil, hhere]
    | cons x r ih =>
      intro r' hl hr hsame
      have hhere := matchHere_of_sameWords h hl hr hsame
      obtain ⟨y, r', rfl, hxy, hr⟩ := List.map_eq_cons_iff.1 hr.symm
      rw [searchFrom_cons, searchFrom_cons, hhere,
        ih (x :: l) (y :: l') r' (by rw [List.map_cons, List.map_cons, hl, hxy]) hr.symm (by simpa using hsame)]
  exact hfrom [] [] s t rfl hmap hwords

/-! ## Between the groups -/

/-- A word stands here, between `lo` and `hi` and outside the groups. -/
structure Placed (ws : List Bytes) (text : Bytes) (lo hi : Nat) (groups : List (Nat × Nat × Nat)) (w : Bytes) (j : Nat) : Prop where
  word : w ∈ ws
  stands : w <+: text.drop j
  lo : lo ≤ j
  hi : j + w.length ≤ hi
  outside : ∀ k, j ≤ k → k < j + w.length → ∀ g ∈ groups, ¬ (g.2.1 ≤ k ∧ k < g.2.1 + g.2.2)

theorem Placed.mono {text : Bytes} {lo hi lo' hi' : Nat} {gs gs' : List (Nat × Nat × Nat)} {w : Bytes} {j : Nat}
    (h : Placed ws text lo hi gs w j) (hlo : lo' ≤ lo) (hhi : hi ≤ hi') (hgs : ∀ g ∈ gs', g ∈ gs ∨ hi ≤ g.2.1 ∨ g.2.1 + g.2.2 ≤ lo) :
    Placed ws text lo' hi' gs' w j := by
  refine ⟨h.word, h.stands, hlo.trans h.lo, h.hi.trans hhi, fun k hj hk g hg hin => ?_⟩
  have hlo := h.lo
  have hhi := h.hi
  rcases hgs g hg with hg | hg | hg
  · exact h.outside k hj hk g hg hin
  · omega
  · omega

theorem mem_taken {w : Bytes} {i : Nat} {x : UInt8} (ha : c.after = w ++ d.after) (hb : d.before = w.reverse ++ c.before)
    (hx : (c.before.reverse ++ c.after)[i]? = some x) (hlo : c.before.length ≤ i) (hhi : i < d.before.length) : x ∈ w := by
  rw [hb, List.length_append, List.length_reverse] at hhi
  rw [List.getElem?_append_right (by simpa using hlo), List.length_reverse, ha, List.getElem?_append_left (by omega)] at hx
  exact List.mem_of_getElem? hx

/-- What a worded pattern takes outside its groups is sole or lies in a word. -/
theorem placed_run (h : p.Worded f ws) (hd : d ∈ run p c) : ∃ gs, d.groups = gs ++ c.groups ∧
    (∀ g ∈ gs, c.before.length ≤ g.2.1 ∧ g.2.1 + g.2.2 ≤ d.before.length) ∧
    ∀ i x, (c.before.reverse ++ c.after)[i]? = some x → c.before.length ≤ i → i < d.before.length →
      (∀ g ∈ gs, ¬ (g.2.1 ≤ i ∧ i < g.2.1 + g.2.2)) → (∀ y, f y = x → y = x) ∨
        ∃ w j, Placed ws (c.before.reverse ++ c.after) c.before.length d.before.length gs w j ∧ j ≤ i ∧ i < j + w.length := by
  induction h generalizing c d with
  | empty =>
    rw [run, List.mem_singleton] at hd
    subst hd
    exact ⟨[], rfl, by simp, fun i x _ hlo hhi => absurd hhi (by omega)⟩
  | atEnd =>
    obtain rfl : d = c := by
      rw [run] at hd
      split at hd
      · exact List.mem_singleton.1 hd
      · cases hd
    exact ⟨[], rfl, by simp, fun i x _ hlo hhi => absurd hhi (by omega)⟩
  | @char q _ hsole =>
    obtain ⟨w, ha, hb, y, rfl, hy⟩ := mem_run hd
    obtain ⟨gs, hgs, hin⟩ := groups_run hd
    refine ⟨gs, hgs, hin, fun i x hx hlo hhi _ => Or.inl (hsole x ?_)⟩
    rw [List.mem_singleton.1 (mem_taken ha hb hx hlo hhi)]
    exact hy
  | @many greedy q _ hsole =>
    obtain ⟨w, ha, hb, hall⟩ := mem_run hd
    obtain ⟨gs, hgs, hin⟩ := groups_run hd
    exact ⟨gs, hgs, hin, fun i x hx hlo hhi _ => Or.inl (hsole x (hall x (mem_taken ha hb hx hlo hhi)))⟩
  | @word w hw =>
    rw [run_lit] at hd
    split at hd
    · rename_i hstands
      rw [List.mem_singleton] at hd
      subst hd
      refine ⟨[], rfl, by simp, fun i x _ hlo hhi _ => Or.inr ⟨w, c.before.length, ⟨hw, ?_, le_rfl, ?_, by simp⟩, hlo, ?_⟩⟩
      · rwa [List.drop_left' (by simp)]
      · simp [Nat.add_comm]
      · simpa [Nat.add_comm] using hhi
    · cases hd
  | @group n a ha =>
    -- whatever is taken is in the group
    simp only [run, List.mem_map] at hd
    obtain ⟨e, he, rfl⟩ := hd
    have hle := before_le_run he
    obtain ⟨gs, hgs, hin⟩ := groups_run he
    refine ⟨(n, c.before.length, e.before.length - c.before.length) :: gs, by simp [hgs], fun g hg => ?_,
      fun i x _ hlo hhi hout => ?_⟩
    · rcases List.mem_cons.1 hg with rfl | hg
      · simp only
        omega
      · exact hin g hg
    · exact absurd ⟨hlo, by simp only at hhi ⊢; omega⟩ (hout _ List.mem_cons_self)
  | @seq a b _ _ iha ihb =>
    obtain ⟨e, he, hd⟩ := mem_run_seq.1 hd
    obtain ⟨gs, hgs, hin, hplaced⟩ := iha he
    obtain ⟨gs', hgs', hin', hplaced'⟩ := ihb hd
    have hle := before_le_run he
    have hle' := before_le_run hd
    rw [text_run he] at hplaced'
    refine ⟨gs' ++ gs, by rw [hgs', hgs, List.append_assoc], fun g hg => ?_, fun i x hx hlo hhi hout => ?_⟩
    · rcases List.mem_append.1 hg with hg | hg
      · have := hin' g hg
        omega
      · have := hin g hg
        omega
    · rcases Nat.lt_or_ge i e.before.length with hi | hi
      · rcases hplaced i x hx hlo hi fun g hg => hout g (List.mem_append_right _ hg) with hsole | ⟨w, j, hw, hji⟩
        · exact Or.inl hsole
        · refine Or.inr ⟨w, j, hw.mono le_rfl hle' fun g hg => ?_, hji⟩
          rcases List.mem_append.1 hg with hg | hg
          · exact Or.inr (Or.inl (hin' g hg).1)
          · exact Or.inl hg
      · rcases hplaced' i x hx hi hhi fun g hg => hout g (List.mem_append_left _ hg) with hsole | ⟨w, j, hw, hji⟩
        · exact Or.inl hsole
        · refine Or.inr ⟨w, j, hw.mono hle le_rfl fun g hg => ?_, hji⟩
          rcases List.mem_append.1 hg with hg | hg
          · exact Or.inl hg
          · exact Or.inr (Or.inr (hin g hg).2)
  | @alt a b _ _ iha ihb =>
    rcases List.mem_append.1 hd with hd | hd
    · exact iha hd
    · exact ihb hd

/-- **Between the groups** of a match are only sole characters and words. -/
theorem word_of_between (h : p.Worded f ws) {s : Bytes} {m : Match} (hm : search p s = some m) {i : Nat} {x : UInt8}
    (hi : m.Between i) (hx : s[i]? = some x) : (∀ y, f y = x → y = x) ∨
      ∃ w ∈ ws, ∃ j, w <+: s.drop j ∧ (∀ k, j ≤ k → k < j + w.length → m.Between k) ∧ j ≤ i ∧ i < j + w.length := by
  obtain ⟨l, r, d, rfl, hd, hpos, hlen, hgroups⟩ := exists_run_of_searchFrom hm
  rw [List.append_nil, List.length_reverse] at hpos
  rw [List.append_nil] at hd
  have hle := before_le_run hd
  obtain ⟨gs, hgs, -, hplaced⟩ := placed_run h hd
  simp only [List.append_nil, List.reverse_reverse, List.length_reverse] at hgs hplaced hle
  obtain ⟨hlo, hhi, hout⟩ := hi
  rw [hgroups, hgs] at hout
  rcases hplaced i x hx (by omega) (by omega) hout with hsole | ⟨w, j, hw, hji, hij⟩
  · exact Or.inl hsole
  · refine Or.inr ⟨w, hw.word, j, hw.stands, fun k hjk hkj => ⟨?_, ?_, ?_⟩, hji, hij⟩
    · exact hpos.le.trans (hw.lo.trans hjk)
    · have := hw.hi
      omega
    · rw [hgroups, hgs]
      exact hw.outside k hjk hkj

end
end Regex
