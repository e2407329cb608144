import OriginDB.Lib.Regex
/-!
# The first way to match

A backtracking engine answers with the first of the ways that `run` lists. A greedy repetition tries the longest of its
texts first and a lazy one the shortest, and either goes on to the next as long as what follows fails there.
-/
namespace Regex

open ByteCodec Pattern

/-! ## Matching at a place -/

/-- Some text at the front matches, with `before` (last byte first) behind it. -/
def Pattern.MatchesAt (p : Pattern) (before s : Bytes) : Prop := ∃ w r, s = w ++ r ∧ p.Matches before w r

section At
variable {p a b : Pattern} {c d e : Cursor}

theorem run_eq_nil_iff : run p c = [] ↔ ¬ p.MatchesAt c.before c.after := by
  constructor
  · rintro hnil ⟨w, r, hs, hm⟩
    obtain ⟨d, hd, -⟩ := exists_mem_run hs hm
    rw [hnil] at hd
    cases hd
  · intro hno
    rw [List.eq_nil_iff_forall_not_mem]
    intro d hd
    obtain ⟨w, hw, -, hm⟩ := mem_run hd
    exact hno ⟨w, d.after, hw, hm⟩

/-- Where a pattern matches there is a first way. -/
theorem exists_head?_run (h : p.MatchesAt c.before c.after) : ∃ d, (run p c).head? = some d := by
  cases hrun : run p c with
  | nil => exact absurd h (run_eq_nil_iff.1 hrun)
  | cons d ds => exact ⟨d, rfl⟩

theorem mem_of_head? (h : (run p c).head? = some d) : d ∈ run p c := List.mem_of_mem_head? h

/-! ## Sequences and groups -/

theorem head?_run_seq (ha : (run a c).head? = some d) (hb : (run b d).head? = some e) :
    (run (.seq a b) c).head? = some e := by
  obtain ⟨more, hm⟩ := List.head?_eq_some_iff.1 ha
  obtain ⟨more', hm'⟩ := List.head?_eq_some_iff.1 hb
  rw [run, hm, List.flatMap_cons, hm']
  rfl

theorem head?_run_group {n : Nat} (h : (run a c).head? = some d) : (run (.group n a) c).head? =
    some { d with groups := (n, c.before.length, d.before.length - c.before.length) :: d.groups } := by
  rw [run, List.head?_map, h]
  rfl

/-- There is one way to match letters. -/
theorem run_litI {s w rest before : Bytes} {gs : List (Nat × Nat × Nat)} (h : w.map toLower = s.map toLower) :
    run (litI s) ⟨before, w ++ rest, gs⟩ = [⟨w.reverse ++ before, rest, gs⟩] := by
  induction s generalizing w before with
  | nil =>
    obtain rfl : w = [] := List.map_eq_nil_iff.1 h
    rfl
  | cons c s ih =>
    cases w with
    | nil => cases h
    | cons x w =>
      rw [List.map_cons, List.map_cons, List.cons.injEq] at h
      simp [litI, run, h.1, ih h.2]

/-- The ways that lead nowhere are passed over. -/
theorem head?_flatMap_of_split {f : Cursor → List Cursor} {l l₁ l₂ : List Cursor} (hsplit : l = l₁ ++ c :: l₂)
    (hno : ∀ m ∈ l₁, f m = []) (hd : (f c).head? = some d) : (l.flatMap f).head? = some d := by
  obtain ⟨more, hmore⟩ := List.head?_eq_some_iff.1 hd
  rw [hsplit, List.flatMap_append, List.flatMap_eq_nil_iff.2 hno, List.flatMap_cons, hmore]
  rfl

/-- The first way through a sequence that ends as it should goes through one of the ways of its first part. -/
theorem find?_run_seq {q : Cursor → Bool} (h : (run (.seq a b) c).find? q = some d) :
    ∃ e ∈ run a c, (run b e).find? q = some d := by
  rw [run, List.find?_flatMap] at h
  obtain ⟨l₁, e, l₂, hsplit, he, -⟩ := List.findSome?_eq_some_iff.1 h
  exact ⟨e, by rw [hsplit]; simp, he⟩

theorem fullMatch_eq_some {s : Bytes} {m : Match} (h : fullMatch p s = some m) :
    ∃ d, (run p ⟨[], s, []⟩).find? (fun d => d.after = []) = some d ∧ m = ⟨0, s.length, d.groups⟩ := by
  rw [fullMatch, Option.map_eq_some_iff] at h
  obtain ⟨d, hd, rfl⟩ := h
  exact ⟨d, hd, rfl⟩

end At

/-! ## Repetitions -/

section Repetitions
variable {p : UInt8 → Bool} {gs : List (Nat × Nat × Nat)} {before w s : Bytes} {b : Pattern} {d : Cursor}

/-- The text does not go on with this class. -/
def Leaves (p : UInt8 → Bool) (s : Bytes) : Prop := ∀ x rest, s = x :: rest → p x = false

theorem leaves_nil : Leaves p [] := nofun

/-- Every text goes on with some of a class, and then no more of it. -/
theorem leaves_dropWhile (s : Bytes) : Leaves p (s.dropWhile p) := by
  induction s with
  | nil => exact leaves_nil
  | cons x s ih =>
    cases hx : p x with
    | true => rwa [List.dropWhile_cons_of_pos hx]
    | false =>
      rw [List.dropWhile_cons_of_neg (by simp [hx])]
      rintro y rest ⟨⟩
      exact hx

theorem mem_takeWhile_class {x : UInt8} {s : Bytes} (h : x ∈ s.takeWhile p) : p x = true := by
  induction s with
  | nil => cases h
  | cons y s ih =>
    cases hy : p y with
    | true =>
      rw [List.takeWhile_cons_of_pos hy, List.mem_cons] at h
      rcases h with rfl | h
      · exact hy
      · exact ih h
    | false =>
      rw [List.takeWhile_cons_of_neg (by simp [hy])] at h
      cases h

/-- Characters of a class are told from what begins with none. -/
theorem span_eq {a b x y : Bytes} (ha : ∀ c ∈ a, p c = true) (hb : ∀ c ∈ b, p c = true) (hx : Leaves p x) (hy : Leaves p y)
    (h : a ++ x = b ++ y) : a = b ∧ x = y := by
  have htake : ∀ {a x : Bytes}, (∀ c ∈ a, p c = true) → Leaves p x → (a ++ x).takeWhile p = a := by
    intro a x ha hx
    have hnone : x.takeWhile p = [] := by
      cases x with
      | nil => rfl
      | cons c x => exact List.takeWhile_cons_of_neg (by simp [hx c x rfl])
    rw [List.takeWhile_append_of_pos ha, hnone, List.append_nil]
  have hsame : a = b := by rw [← htake ha hx, h, htake hb hy]
  subst hsame
  exact ⟨rfl, List.append_cancel_left h⟩

/-- A greedy repetition tries longer texts before this one. -/
theorem runMany_greedy_split (gs : List (Nat × Nat × Nat)) (before s : Bytes) (hw : ∀ x ∈ w, p x = true) : ∃ l₁ l₂,
    runMany true p gs before (w ++ s) = l₁ ++ ⟨w.reverse ++ before, s, gs⟩ :: l₂ ∧
      ∀ m ∈ l₁, ∃ v s', v ≠ [] ∧ (∀ x ∈ v, p x = true) ∧ s = v ++ s' ∧ m = ⟨v.reverse ++ (w.reverse ++ before), s', gs⟩ := by
  induction w generalizing before with
  | nil =>
    cases s with
    | nil => exact ⟨[], [], rfl, by simp⟩
    | cons x s =>
      rw [List.nil_append, runMany]
      by_cases hx : p x = true
      · rw [if_pos hx, if_pos rfl]
        refine ⟨_, [], rfl, fun m hm => ?_⟩
        obtain ⟨v, hv, hs, hb, hg⟩ := mem_runMany.1 hm
        refine ⟨x :: v, m.after, by simp, ?_, by rw [hs]; rfl, ?_⟩
        · intro y hy
          rcases List.mem_cons.1 hy with rfl | hy
          · exact hx
          · exact hv y hy
        · exact Cursor.ext (by rw [hb]; simp) rfl hg
      · rw [if_neg hx]
        exact ⟨[], [], rfl, by simp⟩
  | cons x w ih =>
    obtain ⟨l₁, l₂, hsplit, hl₁⟩ := ih (x :: before) fun y hy => hw y (by simp [hy])
    refine ⟨l₁, l₂ ++ [⟨before, x :: (w ++ s), gs⟩], ?_, fun m hm => ?_⟩
    · rw [List.cons_append, runMany, if_pos (hw x (by simp)), if_pos rfl, hsplit]
      simp
    · obtain ⟨v, s', hne, hv, hs, rfl⟩ := hl₁ m hm
      exact ⟨v, s', hne, hv, hs, by simp⟩

/-- A lazy repetition tries shorter texts before this one. -/
theorem runMany_lazy_split (gs : List (Nat × Nat × Nat)) (before s : Bytes) (hw : ∀ x ∈ w, p x = true) : ∃ l₁ l₂,
    runMany false p gs before (w ++ s) = l₁ ++ ⟨w.reverse ++ before, s, gs⟩ :: l₂ ∧
      ∀ m ∈ l₁, ∃ u v, w = u ++ v ∧ v ≠ [] ∧ m = ⟨u.reverse ++ before, v ++ s, gs⟩ := by
  induction w generalizing before with
  | nil =>
    cases s with
    | nil => exact ⟨[], [], rfl, by simp⟩
    | cons x s =>
      rw [List.nil_append, runMany]
      by_cases hx : p x = true
      · rw [if_pos hx, if_neg Bool.false_ne_true]
        exact ⟨[], _, rfl, by simp⟩
      · rw [if_neg hx]
        exact ⟨[], [], rfl, by simp⟩
  | cons x w ih =>
    obtain ⟨l₁, l₂, hsplit, hl₁⟩ := ih (x :: before) fun y hy => hw y (by simp [hy])
    refine ⟨⟨before, x :: (w ++ s), gs⟩ :: l₁, l₂, ?_, fun m hm => ?_⟩
    · rw [List.cons_append, runMany, if_pos (hw x (by simp)), if_neg Bool.false_ne_true, hsplit]
      simp
    · rcases List.mem_cons.1 hm with rfl | hm
      · exact ⟨[], x :: w, rfl, by simp, rfl⟩
      · obtain ⟨u, v, rfl, hne, rfl⟩ := hl₁ m hm
        exact ⟨x :: u, v, rfl, hne, by simp⟩

/-- A greedy repetition takes all it can. -/
theorem head?_runMany (hw : ∀ x ∈ w, p x = true) (hs : Leaves p s) :
    (runMany true p gs before (w ++ s)).head? = some ⟨w.reverse ++ before, s, gs⟩ := by
  obtain ⟨l₁, l₂, hsplit, hl₁⟩ := runMany_greedy_split gs before s hw
  cases l₁ with
  | nil => rw [hsplit]; rfl
  | cons m l₁ =>
    obtain ⟨v, s', hne, hv, hvs, -⟩ := hl₁ m List.mem_cons_self
    obtain ⟨x, v, rfl⟩ := List.exists_cons_of_ne_nil hne
    have hx := hv x List.mem_cons_self
    rw [hs x (v ++ s') hvs] at hx
    cases hx

theorem head?_run_plus (hne : w ≠ []) (hw : ∀ x ∈ w, p x = true) (hs : Leaves p s) :
    (run (.plus true p) ⟨before, w ++ s, gs⟩).head? = some ⟨w.reverse ++ before, s, gs⟩ := by
  obtain ⟨x, w, rfl⟩ := List.exists_cons_of_ne_nil hne
  refine head?_run_seq (d := ⟨x :: before, w ++ s, gs⟩) ?_ ?_
  · simp [run, hw x List.mem_cons_self]
  · rw [run, head?_runMany (fun y hy => hw y (List.mem_cons_of_mem _ hy)) hs]
    simp

/-- Nothing longer of the class leads to a match. -/
def Longest (p : UInt8 → Bool) (b : Pattern) (before s : Bytes) : Prop :=
  ∀ v s', v ≠ [] → (∀ x ∈ v, p x = true) → s = v ++ s' → ¬ b.MatchesAt (v.reverse ++ before) s'

/-- What a greedy repetition has taken is the longest there is. -/
theorem longest_of_greedy (h : (run (.seq (.many true p) b) ⟨before, s, gs⟩).head? = some d) :
    ∃ w r, s = w ++ r ∧ (∀ x ∈ w, p x = true) ∧ (run b ⟨w.reverse ++ before, r, gs⟩).head? = some d ∧
      Longest p b (w.reverse ++ before) r := by
  induction s generalizing before with
  | nil =>
    refine ⟨[], [], rfl, by simp, ?_, ?_⟩
    · simpa [run, runMany] using h
    · rintro v s' hne - hs
      exact absurd (List.append_eq_nil_iff.1 hs.symm).1 hne
  | cons x s ih =>
    rw [run, run, runMany] at h
    by_cases hx : p x = true
    · rw [if_pos hx, if_pos rfl, List.flatMap_append, List.flatMap_singleton, List.head?_append, Option.or_eq_some_iff] at h
      rcases h with h | ⟨hnone, h⟩
      · obtain ⟨w, r, rfl, hw, hd, hlongest⟩ := ih h
        refine ⟨x :: w, r, rfl, ?_, by simpa using hd, by simpa using hlongest⟩
        intro y hy
        rcases List.mem_cons.1 hy with rfl | hy
        · exact hx
        · exact hw y hy
      · refine ⟨[], x :: s, rfl, by simp, h, ?_⟩
        rintro v s' hne hv hs
        obtain ⟨y, v, rfl⟩ := List.exists_cons_of_ne_nil hne
        rw [List.cons_append, List.cons.injEq] at hs
        obtain ⟨rfl, rfl⟩ := hs
        -- it is one of the ways that have failed
        have hmem : (⟨v.reverse ++ (x :: before), s', gs⟩ : Cursor) ∈ runMany true p gs (x :: before) (v ++ s') :=
          mem_runMany.2 ⟨v, fun z hz => hv z (List.mem_cons_of_mem _ hz), rfl, rfl, rfl⟩
        have hfails := List.flatMap_eq_nil_iff.1 (List.head?_eq_none_iff.1 hnone) _ hmem
        simpa using run_eq_nil_iff.1 hfails
    · rw [if_neg hx, List.flatMap_singleton] at h
      refine ⟨[], x :: s, rfl, by simp, h, ?_⟩
      rintro v s' hne hv hs
      obtain ⟨y, v, rfl⟩ := List.exists_cons_of_ne_nil hne
      rw [List.cons_append, List.cons.injEq] at hs
      exact absurd (hs.1 ▸ hv y List.mem_cons_self) hx

theorem run_seq_assoc (a b c : Pattern) (e : Cursor) : run (.seq (.seq a b) c) e = run (.seq a (.seq b c)) e := by
  rw [run, run, run, List.flatMap_assoc]
  rfl

/-- Letters that are matched stand at the front. -/
theorem head?_lit_seq {s t : Bytes} (h : (run (.seq (lit s) b) ⟨before, t, gs⟩).head? = some d) :
    ∃ r, t = s ++ r ∧ (run b ⟨s.reverse ++ before, r, gs⟩).head? = some d := by
  induction s generalizing before t with
  | nil => exact ⟨t, rfl, by simpa [lit, run] using h⟩
  | cons c s ih =>
    rw [lit, run_seq_assoc, run] at h
    cases t with
    | nil => simp [run] at h
    | cons x t =>
      by_cases hx : x = c
      · subst hx
        have hchar : run (.char fun y => y = x) ⟨before, x :: t, gs⟩ = [⟨x :: before, t, gs⟩] := by simp [run]
        rw [hchar, List.flatMap_singleton] at h
        obtain ⟨r, rfl, hd⟩ := ih h
        exact ⟨r, rfl, by simpa using hd⟩
      · simp [run, hx] at h

theorem longest_of_plus (h : (run (.seq (.plus true p) b) ⟨before, s, gs⟩).head? = some d) :
    ∃ w r, w ≠ [] ∧ s = w ++ r ∧ (∀ x ∈ w, p x = true) ∧ (run b ⟨w.reverse ++ before, r, gs⟩).head? = some d ∧
      Longest p b (w.reverse ++ before) r := by
  rw [Pattern.plus, run_seq_assoc, run] at h
  cases s with
  | nil => simp [run] at h
  | cons x s =>
    by_cases hx : p x = true
    · have hchar : run (.char p) ⟨before, x :: s, gs⟩ = [⟨x :: before, s, gs⟩] := by simp [run, hx]
      rw [hchar, List.flatMap_singleton] at h
      obtain ⟨w, r, rfl, hw, hd, hlongest⟩ := longest_of_greedy h
      refine ⟨x :: w, r, by simp, rfl, ?_, by simpa using hd, by simpa using hlongest⟩
      intro y hy
      rcases List.mem_cons.1 hy with rfl | hy
      · exact hx
      · exact hw y hy
    · simp [run, hx] at h

/-- A lazy group takes no more than it must. -/
theorem head?_run_lazyGroup {n : Nat} (hne : w ≠ []) (hw : ∀ x ∈ w, p x = true)
    (hno : ∀ u v, w = u ++ v → u ≠ [] → v ≠ [] → ¬ b.MatchesAt (u.reverse ++ before) (v ++ s))
    (hd : (run b ⟨w.reverse ++ before, s, (n, before.length, w.length) :: gs⟩).head? = some d) :
    (run (.seq (.group n (.plus false p)) b) ⟨before, w ++ s, gs⟩).head? = some d := by
  obtain ⟨x, w, rfl⟩ := List.exists_cons_of_ne_nil hne
  obtain ⟨l₁, l₂, hsplit, hl₁⟩ := runMany_lazy_split (w := w) gs (x :: before) s
    fun y hy => hw y (List.mem_cons_of_mem _ hy)
  have hplus : run (.plus false p) ⟨before, x :: w ++ s, gs⟩ = runMany false p gs (x :: before) (w ++ s) := by
    simp [Pattern.plus, run, hw x List.mem_cons_self]
  have hlen : (w.reverse ++ x :: before).length - before.length = (x :: w).length := by
    simp only [List.length_append, List.length_reverse, List.length_cons]
    omega
  have hreverse : w.reverse ++ x :: before = (x :: w).reverse ++ before := by simp
  rw [run, run, hplus, hsplit, List.map_append, List.map_cons]
  refine head?_flatMap_of_split rfl (fun m hm => ?_) ?_
  · obtain ⟨m', hm', rfl⟩ := List.mem_map.1 hm
    obtain ⟨u, v, rfl, hv, rfl⟩ := hl₁ m' hm'
    refine run_eq_nil_iff.2 ?_
    have hfails := hno (x :: u) v rfl (by simp) hv
    rwa [List.reverse_cons, List.append_assoc] at hfails
  · simp only [hlen]
    rw [hreverse]
    exact hd

end Repetitions

/-! ## Searching -/

section Search
variable {p : Pattern} {l t : Bytes} {d : Cursor}

/-- The pattern matches at no place of `l`, with `t` behind it. -/
def Pattern.Misses (p : Pattern) (l t : Bytes) : Prop := ∀ u v, l = u ++ v → v ≠ [] → ¬ p.MatchesAt u.reverse (v ++ t)

/-- Places without a match are passed over. -/
theorem searchFrom_append (before : Bytes) (hno : ∀ u v, l = u ++ v → v ≠ [] → ¬ p.MatchesAt (u.reverse ++ before) (v ++ t)) :
    searchFrom p before (l ++ t) = searchFrom p (l.reverse ++ before) t := by
  induction l generalizing before with
  | nil => rfl
  | cons x l ih =>
    have hhere : run p ⟨before, x :: (l ++ t), []⟩ = [] := run_eq_nil_iff.2 (hno [] (x :: l) rfl (by simp))
    have hmore := ih (x :: before) fun u v huv hv => by
      have hfails := hno (x :: u) v (by rw [huv]; rfl) hv
      rwa [List.reverse_cons, List.append_assoc] at hfails
    rw [List.cons_append, searchFrom.eq_def]
    simp only [hhere]
    rw [hmore, List.reverse_cons, List.append_assoc]
    rfl

theorem searchFrom_of_first (before : Bytes) (hno : ∀ u v, l = u ++ v → v ≠ [] → ¬ p.MatchesAt (u.reverse ++ before) (v ++ t))
    (hd : (run p ⟨l.reverse ++ before, t, []⟩).head? = some d) : searchFrom p before (l ++ t) =
      some ⟨before.length + l.length, d.before.length - (before.length + l.length), d.groups⟩ := by
  obtain ⟨more, hrun⟩ := List.head?_eq_some_iff.1 hd
  rw [searchFrom_append before hno, searchFrom.eq_def]
  simp only [hrun, List.length_append, List.length_reverse, Nat.add_comm l.length]

/-- An iterator passes over them too. -/
theorem findAllFrom_append {s : Bytes} {pos : Nat} (fuel : Nat) (hs : s.drop pos = l ++ t)
    (hno : ∀ u v, l = u ++ v → v ≠ [] → ¬ p.MatchesAt (u.reverse ++ (s.take pos).reverse) (v ++ t)) :
    findAllFrom p s fuel pos = findAllFrom p s fuel (pos + l.length) := by
  cases fuel with
  | zero => rfl
  | succ fuel =>
    have hdrop : s.drop (pos + l.length) = t := by
      rw [← List.drop_drop, hs, List.drop_left]
    have htake : s.take (pos + l.length) = s.take pos ++ l := by
      rw [List.take_add, hs, List.take_left]
    rw [findAllFrom, findAllFrom, hs, hdrop, htake, searchFrom_append _ hno, List.reverse_append]

/-- **The first way at the first place where there is one.** -/
theorem search_of_first (hno : p.Misses l t) (hd : (run p ⟨l.reverse, t, []⟩).head? = some d) :
    search p (l ++ t) = some ⟨l.length, d.before.length - l.length, d.groups⟩ := by
  have hno' : ∀ u v, l = u ++ v → v ≠ [] → ¬ p.MatchesAt (u.reverse ++ []) (v ++ t) := by
    intro u v huv hv
    rw [List.append_nil]
    exact hno u v huv hv
  have hfirst := searchFrom_of_first [] hno' (by rwa [List.append_nil])
  rwa [List.length_nil, Nat.zero_add] at hfirst

/-- Where there is a match there is a first one. -/
theorem exists_first {s : Bytes} (h : p.Occurs s) : ∃ l t, s = l ++ t ∧ p.Misses l t ∧ p.MatchesAt l.reverse t := by
  have hplaces : ∀ n l t, l.length = n → s = l ++ t → p.MatchesAt l.reverse t →
      ∃ l t, s = l ++ t ∧ p.Misses l t ∧ p.MatchesAt l.reverse t := by
    intro n
    induction n using Nat.strongRecOn with
    | ind n ih =>
      intro l t hn hs hm
      by_cases hfirst : p.Misses l t
      · exact ⟨l, t, hs, hfirst, hm⟩
      · simp only [Pattern.Misses, not_forall, not_not] at hfirst
        obtain ⟨u, v, rfl, hv, hearlier⟩ := hfirst
        have hlt := List.length_pos_iff.2 hv
        rw [List.length_append] at hn
        exact ih u.length (by omega) u (v ++ t) rfl (by rw [hs, List.append_assoc]) hearlier
  obtain ⟨l, w, r, hs, hm⟩ := h
  exact hplaces _ l (w ++ r) rfl (by rw [hs, List.append_assoc]) ⟨w, r, rfl, hm⟩

/-- What is found is one of the ways at some place. -/
theorem exists_run_of_searchFrom {before after : Bytes} {m : Match} (h : searchFrom p before after = some m) :
    ∃ l t d, after = l ++ t ∧ d ∈ run p ⟨l.reverse ++ before, t, []⟩ ∧ m.pos = (l.reverse ++ before).length ∧
      m.len = d.before.length - m.pos ∧ m.groups = d.groups := by
  induction after generalizing before with
  | nil =>
    rw [searchFrom] at h
    split at h
    · rename_i d ds hrun
      cases h
      exact ⟨[], [], d, rfl, by rw [List.reverse_nil, List.nil_append, hrun]; exact List.mem_cons_self, rfl, rfl, rfl⟩
    · cases h
  | cons x after ih =>
    rw [searchFrom] at h
    split at h
    · rename_i d ds hrun
      cases h
      exact ⟨[], x :: after, d, rfl, by rw [List.reverse_nil, List.nil_append, hrun]; exact List.mem_cons_self, rfl, rfl, rfl⟩
    · obtain ⟨l, t, d, rfl, hd, hpos, hlen, hg⟩ := ih h
      exact ⟨x :: l, t, d, rfl, by simpa using hd, by simpa using hpos, hlen, hg⟩

theorem search_str {n : Nat} {Q : Bytes → Prop} {s : Bytes} {m : Match} (hc : p.Closes n Q) (h : search p s = some m) :
    Q (m.str n s) := by
  obtain ⟨l, t, d, rfl, hd, -, -, hg⟩ := exists_run_of_searchFrom h
  obtain ⟨pos, len, hl, hQ⟩ := closes_run hc hd
  simpa [Match.str, hg, hl] using hQ

/-- A group begins in the text. -/
theorem pos_le_of_run {c : Cursor} {N : Nat} (hgroups : ∀ g ∈ c.groups, g.2.1 ≤ N) (hN : c.before.length + c.after.length = N)
    (h : d ∈ run p c) : ∀ g ∈ d.groups, g.2.1 ≤ N := by
  induction p generalizing c d with
  | empty =>
    rw [run, List.mem_singleton] at h
    rwa [h]
  | char p =>
    simp only [run] at h
    split at h
    · cases h
    · split at h
      · rw [List.mem_singleton] at h
        rwa [h]
      · cases h
  | seq a b iha ihb =>
    obtain ⟨e, he, hd⟩ := mem_run_seq.1 h
    have htext := congrArg List.length (text_run he)
    simp only [List.length_append, List.length_reverse] at htext
    exact ihb (iha hgroups hN he) (htext.trans hN) hd
  | alt a b iha ihb =>
    rcases List.mem_append.1 h with h | h
    · exact iha hgroups hN h
    · exact ihb hgroups hN h
  | many greedy p =>
    obtain ⟨w, -, -, -, hg⟩ := mem_runMany.1 h
    rwa [hg]
  | group m a ih =>
    simp only [run, List.mem_map] at h
    obtain ⟨e, he, rfl⟩ := h
    intro g hg
    rcases List.mem_cons.1 hg with rfl | hg
    · exact hN ▸ Nat.le_add_right _ _
    · exact ih hgroups hN he g hg
  | atEnd | wordBoundary =>
    simp only [run] at h
    split at h
    · rw [List.mem_singleton] at h
      rwa [h]
    · cases h

theorem pos_le_of_search {s : Bytes} {m : Match} (h : search p s = some m) : ∀ g ∈ m.groups, g.2.1 ≤ s.length := by
  obtain ⟨l, t, d, rfl, hd, -, -, hg⟩ := exists_run_of_searchFrom h
  rw [hg]
  refine pos_le_of_run (by simp) ?_ hd
  simp

end Search

end Regex
