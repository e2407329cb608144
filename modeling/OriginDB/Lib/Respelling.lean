import OriginDB.Lib.FirstWay
/-!
# Searching a text and its image

A text is searched after each of its characters has been replaced by its image under `f`, say its capital, and what is
found is looked up in the text itself. A class that does not tell a character from its image is `Blind` to `f`. A pattern
of blind classes finds the same in both texts (`findAll_map`). A pattern that has letters of its own outside its groups, and
only blind classes within them, is `Keyed`: what it finds in the image it finds in every text with this image that has the
image's own characters between the groups (`search_of_fixed`).
-/
namespace Regex

open ByteCodec

variable {f : UInt8 → UInt8}

def Blind (f : UInt8 → UInt8) (p : UInt8 → Bool) : Prop := ∀ c, p (f c) = p c

theorem Blind.takeWhile_map {q : UInt8 → Bool} (h : Blind f q) (s : Bytes) : (s.map f).takeWhile q = (s.takeWhile q).map f := by
  rw [List.takeWhile_map]
  exact congrArg (fun q => (s.takeWhile q).map f) (funext h)

theorem Blind.dropWhile_map {q : UInt8 → Bool} (h : Blind f q) (s : Bytes) : (s.map f).dropWhile q = (s.dropWhile q).map f := by
  rw [List.dropWhile_map]
  exact congrArg (fun q => (s.dropWhile q).map f) (funext h)

theorem blind_isSpace : Blind toUpper isSpace := isSpace_toUpper

theorem blind_isWord : Blind toUpper isWord := isWord_toUpper

theorem blind_isDot : Blind toUpper isDot := isDot_toUpper

def Pattern.Blind (f : UInt8 → UInt8) : Pattern → Prop
  | .empty | .atEnd => True
  | .char p | .many _ p => Regex.Blind f p
  | .seq a b | .alt a b => a.Blind f ∧ b.Blind f
  | .group _ a => a.Blind f
  | .wordBoundary => Regex.Blind f isWord

/-- What matches a character matches its image, and within the groups the other way round too. -/
def Pattern.Keyed (f : UInt8 → UInt8) : Pattern → Prop
  | .empty | .atEnd => True
  | .char p => ∀ c, p c = true → p (f c) = true
  | .many _ p => Regex.Blind f p
  | .seq a b | .alt a b => a.Keyed f ∧ b.Keyed f
  | .group _ a => a.Blind f
  | .wordBoundary => Regex.Blind f isWord

def Cursor.map (f : UInt8 → UInt8) (c : Cursor) : Cursor := ⟨c.before.map f, c.after.map f, c.groups⟩

@[simp] theorem Cursor.map_before (c : Cursor) : (c.map f).before = c.before.map f := rfl

@[simp] theorem Cursor.map_after (c : Cursor) : (c.map f).after = c.after.map f := rfl

@[simp] theorem Cursor.map_groups (c : Cursor) : (c.map f).groups = c.groups := rfl

@[simp] theorem Cursor.map_mk (l s : Bytes) (gs : List (Nat × Nat × Nat)) :
    (⟨l, s, gs⟩ : Cursor).map f = ⟨l.map f, s.map f, gs⟩ := rfl

/-! ## Blind patterns -/

section
variable {p : Pattern} {c d : Cursor}

theorem runMany_map {q : UInt8 → Bool} (hq : Blind f q) (greedy : Bool) (gs : List (Nat × Nat × Nat)) (l s : Bytes) :
    runMany greedy q gs (l.map f) (s.map f) = (runMany greedy q gs l s).map (Cursor.map f) := by
  induction s generalizing l with
  | nil => rfl
  | cons x s ih =>
    rw [List.map_cons, runMany, runMany, hq x]
    by_cases hx : q x = true
    · have hmore : runMany greedy q gs (f x :: l.map f) (s.map f) = (runMany greedy q gs (x :: l) s).map (Cursor.map f) :=
        ih (x :: l)
      cases greedy <;> simp [hx, hmore]
    · simp [hx]

theorem boundary_map (h : Blind f isWord) (l s : Bytes) : boundary (l.map f) (s.map f) = boundary l s := by
  have hany : ∀ t : Bytes, (t.map f).head?.any isWord = t.head?.any isWord := by
    intro t
    cases t with
    | nil => rfl
    | cons x t => exact h x
  rw [boundary, boundary, hany, hany]

/-- **A blind pattern goes the same ways.** -/
theorem run_map (h : p.Blind f) (c : Cursor) : run p (c.map f) = (run p c).map (Cursor.map f) := by
  induction p generalizing c with
  | empty => rfl
  | char q =>
    obtain ⟨l, s, gs⟩ := c
    cases s with
    | nil => rfl
    | cons x s =>
      have hx : q (f x) = q x := h x
      by_cases hq : q x = true <;> simp [run, hx, hq]
  | seq a b iha ihb =>
    rw [run, run, iha h.1, List.flatMap_map, List.map_flatMap]
    simp only [ihb h.2]
  | alt a b iha ihb => rw [run, run, iha h.1, ihb h.2, List.map_append]
  | many greedy q => exact runMany_map h greedy c.groups c.before c.after
  | group n a ih =>
    rw [run, run, ih h, List.map_map, List.map_map]
    refine List.map_congr_left fun e _ => ?_
    simp [Cursor.map]
  | atEnd =>
    obtain ⟨l, s, gs⟩ := c
    cases s <;> rfl
  | wordBoundary =>
    rw [run, run, Cursor.map_before, Cursor.map_after, boundary_map h]
    split <;> rfl

theorem searchFrom_map (h : p.Blind f) (l s : Bytes) : searchFrom p (l.map f) (s.map f) = searchFrom p l s := by
  have hhere : ∀ l s : Bytes, run p ⟨l.map f, s.map f, []⟩ = (run p ⟨l, s, []⟩).map (Cursor.map f) :=
    fun l s => run_map h ⟨l, s, []⟩
  induction s generalizing l with
  | nil =>
    rw [List.map_nil, searchFrom, searchFrom, ← List.map_nil (f := f), hhere]
    cases hrun : run p ⟨l, [], []⟩ <;> simp [hrun]
  | cons x s ih =>
    have hmore : searchFrom p (f x :: l.map f) (s.map f) = searchFrom p (x :: l) s := ih (x :: l)
    rw [List.map_cons, searchFrom, searchFrom, ← List.map_cons, hhere]
    cases hrun : run p ⟨l, x :: s, []⟩ with
    | nil => simpa [hrun] using hmore
    | cons d ds => simp

theorem findAll_map (h : p.Blind f) (s : Bytes) : findAll p (s.map f) = findAll p s := by
  have hfrom : ∀ fuel pos, findAllFrom p (s.map f) fuel pos = findAllFrom p s fuel pos := by
    intro fuel
    induction fuel with
    | zero => intro pos; rfl
    | succ fuel ih =>
      intro pos
      rw [findAllFrom, findAllFrom, ← List.map_take, ← List.map_reverse, ← List.map_drop, searchFrom_map h]
      cases searchFrom p (s.take pos).reverse (s.drop pos) with
      | none => rfl
      | some m => exact congrArg (m :: ·) (ih (m.pos + m.len))
  rw [findAll, findAll, List.length_map, hfrom]

/-! ## Keyed patterns -/

theorem Pattern.Blind.keyed (h : p.Blind f) : p.Keyed f := by
  induction p with
  | empty | atEnd => trivial
  | char q => exact fun c hc => (h c).trans hc
  | seq a b iha ihb => exact ⟨iha h.1, ihb h.2⟩
  | alt a b iha ihb => exact ⟨iha h.1, ihb h.2⟩
  | many _ _ | group _ _ | wordBoundary => exact h

theorem keyed_lit {s : Bytes} (h : ∀ c ∈ s, f c = c) : (Pattern.lit s).Keyed f := by
  induction s with
  | nil => trivial
  | cons c s ih =>
    refine ⟨fun x hx => ?_, ih fun y hy => h y (List.mem_cons_of_mem _ hy)⟩
    obtain rfl : x = c := of_decide_eq_true hx
    rw [h x List.mem_cons_self]
    exact hx

theorem sublist_of_blind (h : p.Blind f) (c : Cursor) : ((run p c).map (Cursor.map f)).Sublist (run p (c.map f)) :=
  (run_map h c).symm ▸ List.Sublist.refl _

theorem sublist_flatMap {α β γ δ : Type} {φ : α → β} {ψ : γ → δ} {g : α → List γ} {h : β → List δ} {l : List α} {l' : List β}
    (hl : (l.map φ).Sublist l') (hg : ∀ x, ((g x).map ψ).Sublist (h (φ x))) :
    ((l.flatMap g).map ψ).Sublist (l'.flatMap h) := by
  have hmap : ((l.map φ).flatMap h).Sublist (l'.flatMap h) := by
    generalize l.map φ = m at hl
    induction hl with
    | slnil => exact List.Sublist.refl _
    | cons y _ ih => exact ih.trans (List.sublist_append_right _ _)
    | cons_cons y _ ih => exact (List.Sublist.refl (h y)).append ih
  refine List.Sublist.trans ?_ hmap
  clear hl hmap
  induction l with
  | nil => exact List.Sublist.refl _
  | cons x l ih =>
    rw [List.flatMap_cons, List.map_append]
    exact (hg x).append ih

/-- What a keyed pattern finds in a text it finds in the image, in the same order. -/
theorem sublist_run (h : p.Keyed f) (c : Cursor) : ((run p c).map (Cursor.map f)).Sublist (run p (c.map f)) := by
  induction p generalizing c with
  | char q =>
    obtain ⟨l, s, gs⟩ := c
    cases s with
    | nil => exact List.Sublist.refl _
    | cons x s =>
      by_cases hx : q x = true
      · simp [run, hx, h x hx]
      · simp [run, hx]
  | seq a b iha ihb =>
    rw [run, run]
    exact sublist_flatMap (iha h.1 c) (ihb h.2)
  | alt a b iha ihb =>
    rw [run, run, List.map_append]
    exact (iha h.1 c).append (ihb h.2 c)
  | group n a => exact sublist_of_blind (p := .group n a) h c
  | empty => exact sublist_of_blind (p := .empty) trivial c
  | atEnd => exact sublist_of_blind (p := .atEnd) trivial c
  | many greedy q => exact sublist_of_blind (p := .many greedy q) h c
  | wordBoundary => exact sublist_of_blind (p := .wordBoundary) h c

/-- Going on does not lead back. -/
theorem before_le_run (h : d ∈ run p c) : c.before.length ≤ d.before.length := by
  obtain ⟨w, -, hbefore, -⟩ := mem_run h
  rw [hbefore, List.length_append]
  exact Nat.le_add_left _ _

/-- The groups a way adds lie on it. -/
theorem groups_run (h : d ∈ run p c) : ∃ gs, d.groups = gs ++ c.groups ∧
    ∀ g ∈ gs, c.before.length ≤ g.2.1 ∧ g.2.1 + g.2.2 ≤ d.before.length := by
  induction p generalizing c d with
  | empty =>
    rw [run, List.mem_singleton] at h
    exact ⟨[], by rw [h]; rfl, by simp⟩
  | char q =>
    simp only [run] at h
    split at h
    · cases h
    · split at h
      · rw [List.mem_singleton] at h
        exact ⟨[], by rw [h]; rfl, by simp⟩
      · cases h
  | seq a b iha ihb =>
    obtain ⟨e, he, hd⟩ := mem_run_seq.1 h
    obtain ⟨gs, hgs, hin⟩ := iha he
    obtain ⟨gs', hgs', hin'⟩ := ihb hd
    have hle := before_le_run he
    have hle' := before_le_run hd
    refine ⟨gs' ++ gs, by rw [hgs', hgs, List.append_assoc], fun g hg => ?_⟩
    rcases List.mem_append.1 hg with hg | hg
    · have := hin' g hg
      omega
    · have := hin g hg
      omega
  | alt a b iha ihb =>
    rcases List.mem_append.1 h with h | h
    · exact iha h
    · exact ihb h
  | many greedy q =>
    obtain ⟨w, -, -, -, hg⟩ := mem_runMany.1 h
    exact ⟨[], hg, by simp⟩
  | group n a ih =>
    simp only [run, List.mem_map] at h
    obtain ⟨e, he, rfl⟩ := h
    obtain ⟨gs, hgs, hin⟩ := ih he
    have hle := before_le_run he
    refine ⟨(n, c.before.length, e.before.length - c.before.length) :: gs, by simp [hgs], fun g hg => ?_⟩
    rcases List.mem_cons.1 hg with rfl | hg
    · simp only
      omega
    · exact hin g hg
  | atEnd | wordBoundary =>
    simp only [run] at h
    split at h
    · rw [List.mem_singleton] at h
      exact ⟨[], by rw [h]; rfl, by simp⟩
    · cases h

/-- From one place to another, the characters outside the groups are their own images. -/
def Fixed (f : UInt8 → UInt8) (text : Bytes) (lo hi : Nat) (groups : List (Nat × Nat × Nat)) : Prop :=
  ∀ i x, text[i]? = some x → lo ≤ i → i < hi → (∀ g ∈ groups, ¬ (g.2.1 ≤ i ∧ i < g.2.1 + g.2.2)) → f x = x

theorem split_of_blind {l₁ l₂ : List Cursor} (h : p.Blind f) (hsplit : run p (c.map f) = l₁ ++ d :: l₂) :
    ∃ l₁' d' l₂', run p c = l₁' ++ d' :: l₂' ∧ d'.map f = d ∧ (l₁'.map (Cursor.map f)).Sublist l₁ := by
  rw [run_map h, List.map_eq_append_iff] at hsplit
  obtain ⟨l₁', rest, hrun, rfl, hrest⟩ := hsplit
  obtain ⟨d', l₂', rfl, hd, -⟩ := List.map_eq_cons_iff.1 hrest
  exact ⟨l₁', d', l₂', hrun, hd, List.Sublist.refl _⟩

theorem flatMap_split {α β : Type} {g : α → List β} {l : List α} {l₁ l₂ : List β} {d : β}
    (h : l.flatMap g = l₁ ++ d :: l₂) :
    ∃ as e bs u v, l = as ++ e :: bs ∧ g e = u ++ d :: v ∧ l₁ = as.flatMap g ++ u := by
  induction l generalizing l₁ with
  | nil => simp at h
  | cons e l ih =>
    rw [List.flatMap_cons] at h
    rcases List.append_eq_append_iff.1 h with ⟨t, rfl, ht⟩ | ⟨t, ht, hdl⟩
    · obtain ⟨as, e', bs, u, v, rfl, he', rfl⟩ := ih ht
      exact ⟨e :: as, e', bs, u, v, rfl, he', by simp⟩
    · cases t with
      | nil =>
        obtain ⟨as, e', bs, u, v, rfl, he', hnil⟩ := ih (show l.flatMap g = [] ++ d :: l₂ from hdl.symm)
        rw [List.append_nil] at ht
        exact ⟨e :: as, e', bs, u, v, rfl, he', by simp [← ht, ← hnil]⟩
      | cons x t =>
        rw [List.cons_append, List.cons.injEq] at hdl
        obtain ⟨rfl, -⟩ := hdl
        exact ⟨[], e, l, l₁, t, rfl, ht, rfl⟩

/-- **A way through the image is one through the text** that has the image's characters between the groups, and what comes
before it there comes before it here. -/
theorem run_split {l₁ l₂ : List Cursor} (h : p.Keyed f) (hgroups : ∀ g ∈ c.groups, g.2.1 + g.2.2 ≤ c.before.length)
    (hsplit : run p (c.map f) = l₁ ++ d :: l₂)
    (hfixed : Fixed f (c.before.reverse ++ c.after) c.before.length d.before.length d.groups) :
    ∃ l₁' d' l₂', run p c = l₁' ++ d' :: l₂' ∧ d'.map f = d ∧ (l₁'.map (Cursor.map f)).Sublist l₁ := by
  induction p generalizing c d l₁ l₂ with
  | char q =>
    obtain ⟨l, s, gs⟩ := c
    cases s with
    | nil => simp [run] at hsplit
    | cons x s =>
      have hd : d = ⟨f x :: l.map f, s.map f, gs⟩ ∧ l₁ = [] ∧ q (f x) = true := by
        simp only [run, Cursor.map_mk, List.map_cons] at hsplit
        split at hsplit
        · rename_i hq
          cases l₁ with
          | nil => exact ⟨(List.cons.inj hsplit).1.symm, rfl, hq⟩
          | cons y l₁ => simp at hsplit
        · simp at hsplit
      obtain ⟨rfl, rfl, hq⟩ := hd
      -- the character is outside all groups
      have hx : f x = x := by
        refine hfixed l.length x (by simp) le_rfl (by simp) fun g hg hin => ?_
        exact absurd (hgroups g hg) (by simp only; omega)
      rw [hx] at hq
      exact ⟨[], ⟨x :: l, s, gs⟩, [], by simp [run, hq], rfl, List.Sublist.refl _⟩
  | seq a b iha ihb =>
    rw [run] at hsplit
    obtain ⟨as, e, bs, u, v, ha, hb, rfl⟩ := flatMap_split hsplit
    have hemem : e ∈ run a (c.map f) := by rw [ha]; simp
    have hdmem : d ∈ run b e := by rw [hb]; simp
    obtain ⟨gs, hgs, hin⟩ := groups_run hemem
    obtain ⟨gs', hgs', hin'⟩ := groups_run hdmem
    have hle := before_le_run hemem
    have hle' := before_le_run hdmem
    have hfirst : Fixed f (c.before.reverse ++ c.after) c.before.length e.before.length e.groups := by
      intro i x hx hlo hhi hout
      refine hfixed i x hx hlo (by omega) fun g hg hig => ?_
      rw [hgs'] at hg
      rcases List.mem_append.1 hg with hg | hg
      · have := hin' g hg
        omega
      · exact hout g hg hig
    obtain ⟨as', e', bs', ha', rfl, hsub⟩ := iha h.1 hgroups ha hfirst
    have hemem' : e' ∈ run a c := by rw [ha']; simp
    have hgroups' : ∀ g ∈ e'.groups, g.2.1 + g.2.2 ≤ e'.before.length := by
      intro g hg
      simp only [Cursor.map_groups, Cursor.map_before, List.length_map] at hgs hin hle
      rw [hgs] at hg
      rcases List.mem_append.1 hg with hg | hg
      · exact (hin g hg).2
      · have := hgroups g hg
        omega
    have hsecond : Fixed f (e'.before.reverse ++ e'.after) e'.before.length d.before.length d.groups := by
      rw [text_run hemem']
      intro i x hx hlo
      simp only [Cursor.map_before, List.length_map] at hle
      exact hfixed i x hx (by omega)
    obtain ⟨u', d', v', hb', hd', hsub'⟩ := ihb h.2 hgroups' hb hsecond
    refine ⟨as'.flatMap (run b) ++ u', d', v' ++ bs'.flatMap (run b), ?_, hd', ?_⟩
    · rw [run, ha', List.flatMap_append, List.flatMap_cons, hb']
      simp
    · rw [List.map_append]
      exact (sublist_flatMap hsub fun e => sublist_run h.2 e).append hsub'
  | alt a b iha ihb =>
    rw [run] at hsplit
    rcases List.append_eq_append_iff.1 hsplit with ⟨t, rfl, ht⟩ | ⟨t, ht, hdl⟩
    · obtain ⟨l₁', d', l₂', hrun, hd, hsub⟩ := ihb h.2 hgroups ht hfixed
      refine ⟨run a c ++ l₁', d', l₂', by rw [run, hrun, List.append_assoc], hd, ?_⟩
      rw [List.map_append]
      exact (sublist_run h.1 c).append hsub
    · cases t with
      | nil =>
        rw [List.append_nil] at ht
        obtain ⟨l₁', d', l₂', hrun, hd, hsub⟩ := ihb h.2 hgroups
          (show run b (c.map f) = [] ++ d :: l₂ from hdl.symm) hfixed
        refine ⟨run a c ++ l₁', d', l₂', by rw [run, hrun, List.append_assoc], hd, ?_⟩
        rw [List.map_append, ← ht, List.sublist_nil.1 hsub, List.append_nil]
        exact sublist_run h.1 c
      | cons x t =>
        rw [List.cons_append, List.cons.injEq] at hdl
        obtain ⟨rfl, -⟩ := hdl
        obtain ⟨l₁', d', l₂', hrun, hd, hsub⟩ := iha h.1 hgroups ht hfixed
        exact ⟨l₁', d', l₂' ++ run b c, by rw [run, hrun]; simp, hd, hsub⟩
  | group n a => exact split_of_blind (p := .group n a) h hsplit
  | empty => exact split_of_blind (p := .empty) trivial hsplit
  | atEnd => exact split_of_blind (p := .atEnd) trivial hsplit
  | many greedy q => exact split_of_blind (p := .many greedy q) h hsplit
  | wordBoundary => exact split_of_blind (p := .wordBoundary) h hsplit

end

/-- Where a match stands outside its groups. -/
def Match.Between (m : Match) (i : Nat) : Prop :=
  m.pos ≤ i ∧ i < m.pos + m.len ∧ ∀ g ∈ m.groups, ¬ (g.2.1 ≤ i ∧ i < g.2.1 + g.2.2)

/-- **What is found in the image is found in the text** that has the image's characters between the groups. -/
theorem search_of_fixed {p : Pattern} {s : Bytes} {m : Match} (h : p.Keyed f) (hm : search p (s.map f) = some m)
    (hfixed : ∀ i x, s[i]? = some x → m.Between i → f x = x) : search p s = some m := by
  -- the first way at a place of the image is the first way there
  have hhere : ∀ {l t : Bytes} {d ds}, s = l.reverse ++ t → run p ⟨l.map f, t.map f, []⟩ = d :: ds →
      m = ⟨l.length, d.before.length - l.length, d.groups⟩ →
      ∃ d' ds', run p ⟨l, t, []⟩ = d' :: ds' ∧ m = ⟨l.length, d'.before.length - l.length, d'.groups⟩ := by
    intro l t d ds hs hrun hmatch
    have hmem : d ∈ run p ⟨l.map f, t.map f, []⟩ := by rw [hrun]; exact List.mem_cons_self
    have hle := before_le_run hmem
    simp only [List.length_map] at hle
    have hbetween : Fixed f (l.reverse ++ t) l.length d.before.length d.groups := by
      intro i x hx hlo hhi hout
      rw [← hs] at hx
      exact hfixed i x hx (by rw [hmatch]; exact ⟨hlo, by simp only; omega, hout⟩)
    obtain ⟨l₁, d', ds', hrun', rfl, hsub⟩ := run_split (c := ⟨l, t, []⟩) h (by simp)
      (show run p ((⟨l, t, []⟩ : Cursor).map f) = [] ++ d :: ds from hrun) hbetween
    rw [List.sublist_nil, List.map_eq_nil_iff] at hsub
    subst hsub
    exact ⟨d', ds', hrun', by simpa using hmatch⟩
  have hnowhere : ∀ {l t : Bytes}, run p ⟨l.map f, t.map f, []⟩ = [] → run p ⟨l, t, []⟩ = [] := by
    intro l t hrun
    have hsub := sublist_run h ⟨l, t, []⟩
    rw [Cursor.map_mk, hrun, List.sublist_nil, List.map_eq_nil_iff] at hsub
    exact hsub
  have hfrom : ∀ l t : Bytes, s = l.reverse ++ t → searchFrom p (l.map f) (t.map f) = some m → searchFrom p l t = some m := by
    intro l t
    induction t generalizing l with
    | nil =>
      intro hs hsearch
      rw [List.map_nil, searchFrom] at hsearch
      split at hsearch
      · rename_i d ds hrun
        cases hsearch
        obtain ⟨d', ds', hrun', hmatch⟩ := hhere hs hrun (by simp)
        rw [searchFrom, hrun', hmatch]
      · cases hsearch
    | cons x t ih =>
      intro hs hsearch
      rw [List.map_cons, searchFrom] at hsearch
      split at hsearch
      · rename_i d ds hrun
        cases hsearch
        obtain ⟨d', ds', hrun', hmatch⟩ := hhere hs hrun (by simp)
        rw [searchFrom, hrun', hmatch]
      · rename_i hrun
        have hnil : run p ⟨l, x :: t, []⟩ = [] := hnowhere hrun
        simp only [searchFrom, hnil]
        exact ih (x :: l) (by rw [hs]; simp) hsearch
  exact hfrom [] s rfl hm

end Regex
