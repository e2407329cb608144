import Mathlib.Data.List.TakeWhile
import OriginDB.Sql.SelectAll
/-!
# What `set_regex` finds (`sql_engine.cpp:438-442`)

The SET list of an UPDATE is read with `(\w+)\s*=\s*([^,]+)`, one match after the other. No part of a match but the
last can hold a comma and the last runs to the next one, so the list is read item by item: from each of the texts
between two commas comes at most one value, what follows the first `=` that has a name before it
(`setTexts`).
-/
namespace OriginDB

open JsonDoc ByteCodec Regex Pattern

namespace SqlParser

/-- What stands before, last byte first, ends in a name, white space aside. -/
def namedBefore (before : Bytes) : Bool := (before.dropWhile isSpace).head?.any isWord

/-- What follows the first `=` that has a name before it. -/
def valueFrom : Bytes → Bytes → Option Bytes
  | _, [] => none
  | before, c :: rest => if c = 61 && namedBefore before then some rest else valueFrom (c :: before) rest

def itemValue (item : Bytes) : Option Bytes := valueFrom [] item

/-- The group the value ends up in: the white space in front goes to `\s*`, all but one character of it where there is
nothing else. -/
def setText (value : Bytes) : Option Bytes :=
  match value.dropWhile isSpace with
  | [] => value.getLast?.map fun c => [c]
  | text => some text

/-! ## The first `=` after a name -/

section Item
variable {before item x y l t w s : Bytes}

theorem valueFrom_eq_none (h : valueFrom before item = none) (u v : Bytes) (huv : item = u ++ 61 :: v) :
    namedBefore (u.reverse ++ before) = false := by
  induction item generalizing before u with
  | nil => simp at huv
  | cons c rest ih =>
    rw [valueFrom] at h
    split at h
    · cases h
    · rename_i hc
      cases u with
      | nil =>
        rw [List.nil_append, List.cons.injEq] at huv
        simpa [huv.1] using hc
      | cons d u =>
        rw [List.cons_append, List.cons.injEq] at huv
        obtain ⟨rfl, hrest⟩ := huv
        simpa using ih h u hrest

theorem valueFrom_eq_some (h : valueFrom before item = some y) :
    ∃ x, item = x ++ 61 :: y ∧ namedBefore (x.reverse ++ before) = true ∧
      ∀ u v, x = u ++ 61 :: v → namedBefore (u.reverse ++ before) = false := by
  induction item generalizing before with
  | nil => cases h
  | cons c rest ih =>
    rw [valueFrom] at h
    split at h
    · rename_i hc
      cases h
      simp only [Bool.and_eq_true, decide_eq_true_eq] at hc
      exact ⟨[], by rw [hc.1]; rfl, hc.2, fun u v huv => by simp at huv⟩
    · rename_i hc
      obtain ⟨x, hx, hnamed, hfirst⟩ := ih h
      refine ⟨c :: x, by rw [hx]; rfl, by simpa using hnamed, ?_⟩
      intro u v huv
      cases u with
      | nil =>
        rw [List.nil_append, List.cons.injEq] at huv
        simpa [huv.1] using hc
      | cons d u =>
        rw [List.cons_append, List.cons.injEq] at huv
        obtain ⟨rfl, huv⟩ := huv
        simpa using hfirst u v huv

/-- Names and white space end in a name. -/
theorem namedBefore_of_word (hne : w ≠ []) (hw : ∀ c ∈ w, isWord c = true) (hs : ∀ c ∈ s, isSpace c = true) :
    namedBefore ((w ++ s).reverse ++ before) = true := by
  obtain ⟨w, c, rfl⟩ := List.eq_nil_or_concat w |>.resolve_left hne
  have hc : isWord c = true := hw c (by simp)
  have hdrop : (s.reverse ++ (c :: (w.reverse ++ before))).dropWhile isSpace = c :: (w.reverse ++ before) := by
    rw [List.dropWhile_append_of_pos (by simpa using hs), List.dropWhile_cons_of_neg (by simp [not_isSpace_of_isWord hc])]
  simp only [namedBefore, List.concat_eq_append, List.reverse_append, List.reverse_cons, List.nil_append,
    List.append_assoc, List.cons_append, hdrop, List.head?_cons, Option.any_some, hc]

/-- Where something is named, the name and the white space after it. -/
theorem exists_word_of_namedBefore (h : namedBefore x.reverse = true) : ∃ l w s, x = l ++ (w ++ s) ∧ w ≠ [] ∧
    (∀ c ∈ w, isWord c = true) ∧ (∀ c ∈ s, isSpace c = true) ∧ Leaves isWord l.reverse := by
  have hspace := List.takeWhile_append_dropWhile (p := isSpace) (l := x.reverse)
  have hword := List.takeWhile_append_dropWhile (p := isWord) (l := x.reverse.dropWhile isSpace)
  refine ⟨((x.reverse.dropWhile isSpace).dropWhile isWord).reverse, ((x.reverse.dropWhile isSpace).takeWhile isWord).reverse,
    (x.reverse.takeWhile isSpace).reverse, ?_, ?_, ?_, ?_, ?_⟩
  · rw [← List.reverse_append, ← List.reverse_append, ← List.reverse_inj, List.reverse_reverse, List.append_assoc, hword,
      hspace]
  · rw [namedBefore] at h
    cases hd : x.reverse.dropWhile isSpace with
    | nil => rw [hd] at h; cases h
    | cons c rest =>
      rw [hd] at h
      have hc : isWord c = true := h
      simp [List.takeWhile_cons_of_pos hc]
  · intro c hc
    exact mem_takeWhile_class (List.mem_reverse.1 hc)
  · intro c hc
    exact mem_takeWhile_class (List.mem_reverse.1 hc)
  · rw [List.reverse_reverse]
    exact leaves_dropWhile _

/-! ## Where `set_regex` matches -/

theorem isSpace_ne_comma {c : UInt8} (h : isSpace c = true) : c ≠ 44 := by
  rintro rfl
  exact absurd h (by decide)

/-- A name, an `=`, and something that is no comma. -/
theorem matchesAt_setPattern (h : setPattern.MatchesAt before t) : ∃ w s c r, t = w ++ (s ++ 61 :: c :: r) ∧ w ≠ [] ∧
    (∀ c ∈ w, isWord c = true) ∧ (∀ c ∈ s, isSpace c = true) ∧ c ≠ 44 := by
  obtain ⟨_, r, rfl, hm⟩ := h
  rw [setPattern] at hm
  obtain ⟨w, r₁, rfl, hw, s, r₂, rfl, hs, e, r₃, rfl, he, s', v, rfl, hs', hv⟩ := hm
  rw [matches_group, matches_plus] at hw
  replace hv := matches_plus.1 hv
  rw [matches_lit] at he
  subst he
  obtain ⟨c, rest, hc⟩ := List.exists_cons_of_ne_nil (l := s' ++ v) (by simp [hv.1])
  refine ⟨w, s, c, rest ++ r, ?_, hw.1, hw.2, hs, ?_⟩
  · simp only [List.append_assoc, show str "=" = [61] from rfl, List.singleton_append]
    rw [hc]
    simp
  · have hmem : c ∈ s' ++ v := by rw [hc]; exact List.mem_cons_self
    rcases List.mem_append.1 hmem with hmem | hmem
    · exact isSpace_ne_comma (hs' c hmem)
    · simpa using hv.2 c hmem

/-- What comes after an item. -/
def AfterItem (t : Bytes) : Prop := ∀ c rest, t = c :: rest → c = 44

theorem afterItem_nil : AfterItem [] := nofun

theorem afterItem_comma (r : Bytes) : AfterItem (44 :: r) := by
  rintro c rest ⟨⟩
  rfl

/-- A match that begins in an item has its `=` and a character after it there. -/
theorem exists_of_matchesAt (ht : AfterItem t) {u v : Bytes} (huv : item = u ++ v)
    (h : setPattern.MatchesAt before (v ++ t)) : ∃ w s c r, item = u ++ (w ++ s) ++ 61 :: c :: r ∧ w ≠ [] ∧
      (∀ c ∈ w, isWord c = true) ∧ (∀ c ∈ s, isSpace c = true) := by
  obtain ⟨w, s, c, r, heq, hne, hw, hs, hc⟩ := matchesAt_setPattern h
  have hcomma : ∀ z ∈ (w ++ s) ++ [61, c], z ≠ 44 := by
    intro z hz
    simp only [List.mem_append, List.mem_cons, List.not_mem_nil, or_false] at hz
    rcases hz with (hz | hz) | rfl | rfl
    · rintro rfl
      exact absurd (hw _ hz) (by decide)
    · exact isSpace_ne_comma (hs z hz)
    · decide
    · exact hc
  have heq' : v ++ t = ((w ++ s) ++ [61, c]) ++ r := by
    rw [heq]
    simp
  rcases List.append_eq_append_iff.1 heq' with ⟨a, ha, hta⟩ | ⟨a, ha, hra⟩
  · -- the item would have to end before that, with a comma
    cases a with
    | nil =>
      rw [List.append_nil] at ha
      exact ⟨w, s, c, [], by rw [huv, ← ha]; simp, hne, hw, hs⟩
    | cons z a =>
      have hz := ht z (a ++ r) (by rw [hta]; rfl)
      exact absurd hz (hcomma z (by rw [ha]; simp))
  · exact ⟨w, s, c, a, by rw [huv, ha]; simp, hne, hw, hs⟩

/-- An item without a value is passed over. -/
theorem misses_item (ht : AfterItem t) (hnone : (itemValue item).bind setText = none) {u v : Bytes}
    (huv : item = u ++ v) : ¬ setPattern.MatchesAt (u.reverse ++ before) (v ++ t) := by
  intro h
  obtain ⟨w, s, c, r, heq, hne, hw, hs⟩ := exists_of_matchesAt ht huv h
  have hnamed : namedBefore ((u ++ (w ++ s)).reverse ++ []) = true := by
    have hends : namedBefore ((w ++ s).reverse ++ u.reverse) = true := namedBefore_of_word hne hw hs
    simpa using hends
  cases hvalue : itemValue item with
  | none =>
    rw [valueFrom_eq_none hvalue _ _ heq] at hnamed
    cases hnamed
  | some y =>
    -- the first named `=` is the last character, so no other comes after it and this one is not before it
    obtain ⟨x, hx, -, hfirst⟩ := valueFrom_eq_some hvalue
    have hy : y = [] := by
      by_contra hy
      obtain ⟨z, rest, rfl⟩ := List.exists_cons_of_ne_nil hy
      rw [hvalue, Option.bind_some, setText] at hnone
      split at hnone
      · simp at hnone
      · cases hnone
    subst hy
    rw [hx] at heq
    rcases List.append_eq_append_iff.1 heq with ⟨a, ha, hta⟩ | ⟨a, ha, hra⟩
    · cases a with
      | nil => simp at hta
      | cons z a => simp at hta
    · cases a with
      | nil => simp at hra
      | cons z a =>
        rw [List.cons_append, List.cons.injEq] at hra
        obtain ⟨rfl, -⟩ := hra
        rw [hfirst _ _ ha] at hnamed
        cases hnamed

/-- The white space after the name begins at its last character, and the name as far in front of that as there are word
characters. -/
theorem eq_of_word_append {a b s₁ s₂ : Bytes} (ha : ∀ c ∈ a, isWord c = true) (hne : a ≠ []) (hb : b ≠ [])
    (hw : ∀ c, b.getLast? = some c → isWord c = true) (hs₁ : ∀ c ∈ s₁, isSpace c = true) (hs₂ : ∀ c ∈ s₂, isSpace c = true)
    (h : a ++ s₁ = b ++ s₂) : a = b := by
  have hleaves : ∀ {z : Bytes}, z ≠ [] → (∀ c, z.getLast? = some c → isWord c = true) → Leaves isSpace z.reverse := by
    intro z hz hlast c rest hc
    have hmem : z.getLast? = some c := by
      rw [List.getLast?_eq_head?_reverse, hc]
      rfl
    exact not_isSpace_of_isWord (hlast c hmem)
  have hrev : s₁.reverse ++ a.reverse = s₂.reverse ++ b.reverse := by
    rw [← List.reverse_append, h, List.reverse_append]
  have hspan := span_eq (p := isSpace) (by simpa using hs₁) (by simpa using hs₂)
    (hleaves hne fun c hc => ha c (List.mem_of_getLast? hc)) (hleaves hb hw) hrev
  exact List.reverse_injective hspan.2

/-- No match begins before the name in front of the first named `=`. -/
theorem misses_before_name (ht : AfterItem t) (hitem : item = l ++ (w ++ s) ++ 61 :: y) (hne : w ≠ [])
    (hw : ∀ c ∈ w, isWord c = true) (hs : ∀ c ∈ s, isSpace c = true) (hl : Leaves isWord l.reverse)
    (hfirst : ∀ u v, l ++ (w ++ s) = u ++ 61 :: v → namedBefore (u.reverse ++ []) = false) {u v : Bytes} (huv : l = u ++ v)
    (hv : v ≠ []) : ¬ setPattern.MatchesAt (u.reverse ++ before) (v ++ ((w ++ s) ++ 61 :: y ++ t)) := by
  intro h
  have hsplit : item = u ++ (v ++ ((w ++ s) ++ 61 :: y)) := by
    rw [hitem, huv]
    simp
  rw [← List.append_assoc v] at h
  obtain ⟨w', s', c, r, heq, hne', hw', hs'⟩ := exists_of_matchesAt ht hsplit h
  have hnamed : namedBefore ((u ++ (w' ++ s')).reverse ++ []) = true := by
    have hends : namedBefore ((w' ++ s').reverse ++ u.reverse) = true := namedBefore_of_word hne' hw' hs'
    simpa using hends
  have hplain : (61 : UInt8) ∉ w' ++ s' := by
    intro hmem
    rcases List.mem_append.1 hmem with hmem | hmem
    · exact absurd (hw' _ hmem) (by decide)
    · exact absurd (hs' _ hmem) (by decide)
  have htail : v ++ (w ++ s) ++ 61 :: y = (w' ++ s') ++ 61 :: c :: r := by
    have hboth := hsplit.symm.trans heq
    rw [List.append_assoc u, List.append_cancel_left_eq] at hboth
    rw [List.append_assoc]
    exact hboth
  -- the two `=` are the same one
  have hsame : w' ++ s' = (v ++ w) ++ s := by
    rcases List.append_eq_append_iff.1 htail with ⟨a, ha, hta⟩ | ⟨a, ha, hra⟩
    · cases a with
      | nil => rw [ha]; simp
      | cons z a =>
        rw [List.cons_append, List.cons.injEq] at hta
        exact absurd (by rw [ha, ← hta.1]; simp) hplain
    · cases a with
      | nil =>
        rw [List.append_nil] at ha
        rw [← ha, List.append_assoc]
      | cons z a =>
        rw [List.cons_append, List.cons.injEq] at hra
        have hnot := hfirst (u ++ (w' ++ s')) a (by rw [huv, List.append_assoc u v, ha, ← hra.1]; simp)
        rw [hnamed] at hnot
        cases hnot
  have hword : w' = v ++ w := by
    refine eq_of_word_append hw' hne' (by simp [hne]) ?_ hs' hs hsame
    intro d hd
    rw [List.getLast?_append_of_ne_nil _ hne] at hd
    exact hw d (List.mem_of_getLast? hd)
  obtain ⟨v, d, rfl⟩ := List.eq_nil_or_concat v |>.resolve_left hv
  have hd := hl d (v.reverse ++ u.reverse) (by rw [huv]; simp)
  rw [hw' d (by rw [hword]; simp)] at hd
  cases hd

/-! ## What a match takes -/

theorem leaves_notComma (ht : AfterItem t) : Leaves (fun c : UInt8 => decide (c ≠ 44)) t := by
  intro c rest hc
  simp [ht c rest hc]

/-- The white space and the value. -/
theorem head?_run_value {text : Bytes} (before : Bytes) (gs : List (Nat × Nat × Nat)) (hy : 44 ∉ y) (ht : AfterItem t)
    (htext : setText y = some text) : ∃ p, y = p ++ text ∧
      (run (.seq (.many true isSpace) (.group 2 (plus true fun c => c ≠ 44))) ⟨before, y ++ t, gs⟩).head? =
        some ⟨y.reverse ++ before, t, (2, before.length + p.length, text.length) :: gs⟩ := by
  have hgroup : ∀ {p : Bytes}, y = p ++ text → text ≠ [] →
      (run (.group 2 (plus true fun c : UInt8 => c ≠ 44)) ⟨p.reverse ++ before, text ++ t, gs⟩).head? =
        some ⟨y.reverse ++ before, t, (2, before.length + p.length, text.length) :: gs⟩ := by
    intro p hp hne
    have hcomma : ∀ c ∈ text, decide (c ≠ 44) = true := by
      intro c hc
      rw [decide_eq_true_eq]
      rintro rfl
      exact hy (by rw [hp]; exact List.mem_append_right _ hc)
    rw [head?_run_group (head?_run_plus hne hcomma (leaves_notComma ht)), length_group, hp]
    simp [Nat.add_comm]
  rw [setText] at htext
  split at htext
  · rename_i hblank
    have hspace : ∀ c ∈ y, isSpace c = true := List.dropWhile_eq_nil_iff.1 hblank
    obtain ⟨c, hlast, rfl⟩ := Option.map_eq_some_iff.1 htext
    obtain ⟨p, rfl⟩ := List.getLast?_eq_some_iff.1 hlast
    refine ⟨p, rfl, ?_⟩
    obtain ⟨l₁, l₂, hsplit, hl₁⟩ := runMany_greedy_split (p := isSpace) gs before ([c] ++ t)
      fun d hd => hspace d (List.mem_append_left _ hd)
    rw [← List.append_assoc] at hsplit
    rw [run, run]
    refine head?_flatMap_of_split hsplit (fun m hm => ?_) (hgroup rfl (by simp))
    -- all of the white space is too much
    obtain ⟨v, s', hne, hv, hvs, rfl⟩ := hl₁ m hm
    obtain ⟨d, v, rfl⟩ := List.exists_cons_of_ne_nil hne
    rw [List.cons_append, List.nil_append, List.cons_append, List.cons.injEq] at hvs
    have hnil : v = [] := by
      by_contra hne'
      obtain ⟨e, v, rfl⟩ := List.exists_cons_of_ne_nil hne'
      have he := ht e (v ++ s') hvs.2
      exact isSpace_ne_comma (hv e (by simp)) he
    subst hnil
    rw [List.nil_append] at hvs
    rw [run_eq_nil_iff]
    rintro ⟨u, r, hu, hmatch⟩
    rw [matches_group, matches_plus] at hmatch
    obtain ⟨e, u, rfl⟩ := List.exists_cons_of_ne_nil hmatch.1
    have he : e = 44 := ht e (u ++ r) (by rw [hvs.2]; exact hu)
    simpa [he] using hmatch.2 e (by simp)
  · rename_i hnb
    cases htext
    refine ⟨y.takeWhile isSpace, (List.takeWhile_append_dropWhile (p := isSpace)).symm, ?_⟩
    have hleaves : Leaves isSpace (y.dropWhile isSpace ++ t) := by
      intro c rest hc
      cases hd : y.dropWhile isSpace with
      | nil => exact absurd hd hnb
      | cons d more =>
        rw [hd, List.cons_append, List.cons.injEq] at hc
        rw [← hc.1]
        exact leaves_dropWhile y d more hd
    refine head?_run_seq ?_ (hgroup (List.takeWhile_append_dropWhile (p := isSpace)).symm hnb)
    rw [run]
    have hall : (runMany true isSpace gs before (y.takeWhile isSpace ++ (y.dropWhile isSpace ++ t))).head? =
        some ⟨(y.takeWhile isSpace).reverse ++ before, y.dropWhile isSpace ++ t, gs⟩ :=
      head?_runMany (fun c hc => mem_takeWhile_class hc) hleaves
    rwa [← List.append_assoc, List.takeWhile_append_dropWhile] at hall

/-- **The value of an item**: the match ends with the item, and group 2 is its text. -/
theorem searchFrom_item {text : Bytes} (before : Bytes) (hcomma : 44 ∉ item) (ht : AfterItem t)
    (hvalue : itemValue item = some y) (htext : setText y = some text) :
    ∃ m, searchFrom setPattern before (item ++ t) = some m ∧ m.pos + m.len = before.length + item.length ∧
      m.str 2 (before.reverse ++ (item ++ t)) = text := by
  obtain ⟨x, hx, hnamed, hfirst⟩ := valueFrom_eq_some hvalue
  rw [List.append_nil] at hnamed
  obtain ⟨l, w, s, rfl, hne, hw, hs, hl⟩ := exists_word_of_namedBefore hnamed
  obtain ⟨p, hp, hlast⟩ := head?_run_value (61 :: (s.reverse ++ (w.reverse ++ (l.reverse ++ before))))
    [(1, (l.reverse ++ before).length, w.length)] (y := y) (by rw [hx] at hcomma; simp at hcomma; tauto) ht htext
  have hword : Leaves isWord (s ++ (61 :: (y ++ t))) := by
    intro c rest hc
    cases s with
    | nil =>
      rw [List.nil_append, List.cons.injEq] at hc
      rw [← hc.1]
      decide
    | cons d s =>
      rw [List.cons_append, List.cons.injEq] at hc
      rw [← hc.1]
      exact not_isWord_of_isSpace (hs d (by simp))
  have hspace : Leaves isSpace (61 :: (y ++ t)) := by
    rintro c rest ⟨⟩
    decide
  have hrun : (run setPattern ⟨l.reverse ++ before, w ++ (s ++ (61 :: (y ++ t))), []⟩).head? = some
      ⟨y.reverse ++ 61 :: (s.reverse ++ (w.reverse ++ (l.reverse ++ before))), t,
        (2, (61 :: (s.reverse ++ (w.reverse ++ (l.reverse ++ before)))).length + p.length, text.length) ::
          [(1, (l.reverse ++ before).length, w.length)]⟩ := by
    rw [setPattern]
    refine head?_run_seq (head?_run_group (head?_run_plus hne hw hword)) ?_
    rw [length_group]
    exact head?_run_seq (head?_runMany hs hspace) (head?_run_seq rfl hlast)
  have htail : item ++ t = l ++ (w ++ (s ++ (61 :: (y ++ t)))) := by
    rw [hx]
    simp
  have hsearch := searchFrom_of_first (t := w ++ (s ++ (61 :: (y ++ t)))) before
    (fun u v huv hv hm => misses_before_name ht hx hne hw hs hl hfirst huv hv (by simpa using hm)) hrun
  rw [htail, hsearch]
  refine ⟨_, rfl, ?_, ?_⟩
  · rw [hx]
    simp
    omega
  · simp only [Match.str]
    rw [List.lookup_cons_self]
    have hsplit : before.reverse ++ (l ++ (w ++ (s ++ (61 :: (y ++ t))))) =
        (before.reverse ++ (l ++ (w ++ (s ++ (61 :: p))))) ++ (text ++ t) := by
      rw [hp]
      simp
    have hlen : (61 :: (s.reverse ++ (w.reverse ++ (l.reverse ++ before)))).length + p.length =
        (before.reverse ++ (l ++ (w ++ (s ++ (61 :: p))))).length := by
      simp
      omega
    simp only [hlen, hsplit, List.drop_left, List.take_left]

end Item

/-! ## Item by item -/

/-- The texts of a list of items. -/
def setTexts (clause : Bytes) : List Bytes := (clause.splitOn 44).filterMap fun item => (itemValue item).bind setText

theorem setTexts_item {item : Bytes} (h : 44 ∉ item) : setTexts item = ((itemValue item).bind setText).toList := by
  rw [setTexts, List.splitOn_eq_singleton h]
  cases hv : (itemValue item).bind setText with
  | none => simp [hv]
  | some text => simp [hv]

theorem setTexts_cons (item rest : Bytes) (h : 44 ∉ item) :
    setTexts (item ++ 44 :: rest) = ((itemValue item).bind setText).toList ++ setTexts rest := by
  rw [setTexts, List.splitOn_append_cons_self_of_not_mem h, setTexts]
  cases hv : (itemValue item).bind setText with
  | none => simp [hv]
  | some text => simp [hv]

/-- A text is one item, or an item and more. -/
theorem item_cases (t : Bytes) : 44 ∉ t ∨ ∃ item rest, t = item ++ 44 :: rest ∧ 44 ∉ item := by
  induction t with
  | nil => exact Or.inl (by simp)
  | cons c t ih =>
    by_cases hc : c = 44
    · exact Or.inr ⟨[], t, by rw [hc]; rfl, by simp⟩
    · rcases ih with h | ⟨item, rest, rfl, h⟩
      · exact Or.inl (by simpa [Ne.symm hc] using h)
      · exact Or.inr ⟨c :: item, rest, rfl, by simpa [Ne.symm hc] using h⟩

/-- The rest of a text from a place on. -/
theorem reverse_take_drop (s : Bytes) (pos : Nat) : (s.take pos).reverse.reverse ++ s.drop pos = s := by
  rw [List.reverse_reverse, List.take_append_drop]

section
variable {s item t : Bytes} {pos : Nat}

theorem findAllFrom_noValue (fuel : Nat) (hs : s.drop pos = item ++ t) (ht : AfterItem t)
    (hnone : (itemValue item).bind setText = none) :
    findAllFrom setPattern s fuel pos = findAllFrom setPattern s fuel (pos + item.length) :=
  findAllFrom_append fuel hs fun _ _ huv _ => misses_item ht hnone huv

theorem findAllFrom_end (fuel : Nat) (hs : s.drop pos = []) : findAllFrom setPattern s fuel pos = [] := by
  cases fuel with
  | zero => rfl
  | succ fuel =>
    have hnone : searchFrom setPattern (s.take pos).reverse [] = none := by
      rw [← Option.not_isSome_iff_eq_none, searchFrom_isSome]
      rintro ⟨l, w, r, hlwr, hm⟩
      obtain ⟨w', s', c, r', heq, -⟩ := matchesAt_setPattern (t := w ++ r) ⟨w, r, rfl, hm⟩
      simp only [List.append_assoc, List.nil_eq, List.append_eq_nil_iff] at hlwr
      simp [hlwr.2.1, hlwr.2.2] at heq
    rw [findAllFrom, hs, hnone]

theorem findAllFrom_value {y text : Bytes} (fuel : Nat) (hs : s.drop pos = item ++ t) (hpos : pos ≤ s.length)
    (hcomma : 44 ∉ item) (ht : AfterItem t) (hvalue : itemValue item = some y) (htext : setText y = some text) :
    ∃ m, m.str 2 s = text ∧
      findAllFrom setPattern s (fuel + 1) pos = m :: findAllFrom setPattern s fuel (pos + item.length) := by
  obtain ⟨m, hm, hend, hstr⟩ := searchFrom_item (s.take pos).reverse hcomma ht hvalue htext
  rw [← hs, reverse_take_drop] at hstr
  refine ⟨m, hstr, ?_⟩
  rw [findAllFrom, hs, hm]
  simp only [hend, List.length_reverse, List.length_take, Nat.min_eq_left hpos]

/-- One item, and then what comes after it. -/
theorem findAllFrom_item (fuel : Nat) (hs : s.drop pos = item ++ t) (hpos : pos ≤ s.length) (hcomma : 44 ∉ item) (ht : AfterItem t)
    (hfuel : (item ++ t).length ≤ fuel) : ∃ fuel', t.length ≤ fuel' ∧
      (findAllFrom setPattern s fuel pos).map (Match.str · 2 s) = ((itemValue item).bind setText).toList ++
        (findAllFrom setPattern s fuel' (pos + item.length)).map (Match.str · 2 s) := by
  rw [List.length_append] at hfuel
  cases hv : (itemValue item).bind setText with
  | none => exact ⟨fuel, by omega, by rw [findAllFrom_noValue fuel hs ht hv]; rfl⟩
  | some text =>
    obtain ⟨y, hvalue, htext⟩ := Option.bind_eq_some_iff.1 hv
    have hne : item ≠ [] := by
      rintro rfl
      cases hvalue
    obtain ⟨fuel, rfl⟩ : ∃ n, fuel = n + 1 := ⟨fuel - 1, by have := List.length_pos_of_ne_nil hne; omega⟩
    obtain ⟨m, hstr, hall⟩ := findAllFrom_value fuel hs hpos hcomma ht hvalue htext
    refine ⟨fuel, by have := List.length_pos_of_ne_nil hne; omega, ?_⟩
    rw [hall, List.map_cons, hstr]
    rfl

/-- **The list is read item by item.** -/
theorem findAll_setPattern (clause : Bytes) : (findAll setPattern clause).map (Match.str · 2 clause) = setTexts clause := by
  -- from any place on, with enough fuel for what is left
  have hfrom : ∀ n t fuel pos, t.length ≤ n → clause.drop pos = t → pos ≤ clause.length → t.length ≤ fuel →
      (findAllFrom setPattern clause fuel pos).map (Match.str · 2 clause) = setTexts t := by
    intro n
    induction n with
    | zero =>
      intro t fuel pos hn hs hpos hfuel
      obtain rfl : t = [] := List.eq_nil_of_length_eq_zero (Nat.le_zero.1 hn)
      rw [findAllFrom_end fuel hs]
      rfl
    | succ n ih =>
      intro t fuel pos hn hs hpos hfuel
      have hlen := congrArg List.length hs
      rw [List.length_drop] at hlen
      rcases item_cases t with hitem | ⟨item, rest, rfl, hitem⟩
      · obtain ⟨fuel', -, hread⟩ := findAllFrom_item (t := []) fuel (by rw [hs, List.append_nil]) hpos hitem
          afterItem_nil (by rwa [List.append_nil])
        rw [hread, setTexts_item hitem, findAllFrom_end]
        · simp
        · rw [← List.drop_drop, hs, List.drop_length]
      · obtain ⟨fuel', hfuel', hread⟩ := findAllFrom_item fuel hs hpos hitem (afterItem_comma rest) hfuel
        simp only [List.length_append, List.length_cons] at hlen hn hfuel'
        have hcomma : clause.drop (pos + item.length) = [] ++ 44 :: rest := by
          rw [← List.drop_drop, hs, List.drop_left]
          rfl
        have hafter : clause.drop (pos + item.length + 1) = rest := by
          rw [← List.drop_drop, hcomma]
          rfl
        -- no match begins at the comma
        have hskip : findAllFrom setPattern clause fuel' (pos + item.length) =
            findAllFrom setPattern clause fuel' (pos + item.length + 1) := by
          refine findAllFrom_append (l := [44]) (t := rest) fuel' hcomma fun u v huv hv hm => ?_
          obtain ⟨w, s, c, r, heq, hne, hw, -⟩ := matchesAt_setPattern hm
          obtain ⟨rfl, rfl⟩ : u = [] ∧ v = [44] := by
            cases u with
            | nil => exact ⟨rfl, by simpa using huv.symm⟩
            | cons d u =>
              rw [List.cons_append, List.cons.injEq] at huv
              exact absurd (List.append_eq_nil_iff.1 huv.2.symm).2 hv
          obtain ⟨d, w, rfl⟩ := List.exists_cons_of_ne_nil hne
          simp only [List.cons_append, List.nil_append, List.cons.injEq] at heq
          exact absurd (hw d (by simp)) (by rw [← heq.1]; decide)
        rw [hread, setTexts_cons item rest hitem, hskip, ih rest fuel' _ (by omega) hafter (by omega) (by omega)]
  exact hfrom clause.length clause clause.length 0 le_rfl rfl (Nat.zero_le _) le_rfl

end

example : setTexts (str "a = 1, b='x,y', c= ,=4") = [str "1", str "'x", str " "] := by decide

end SqlParser

end OriginDB
