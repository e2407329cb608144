import OriginDB.Lib.Words
import Mathlib.Data.List.Sublists
/-!
# Spellings with capital and small letters

The words that a match has outside its groups are respelled, with capital and small letters. Where no two of the words can
overlap (`Apart`), what is found depends only on which of them are in capitals (`sameWords_spelling`); and two spellings
that differ in every letter of the other words agree with a third only where all spellings do (`blend_spelling`). What
depends on the search alone, and on letters only as far as a `Blend` lets it, is therefore the same in every spelling exactly
if it is in finitely many (`forall_spellings_iff`).
-/
namespace Regex

open ByteCodec

/-! ## Words that cannot overlap -/

/-- Words of two capitals or more; none begins within another. -/
structure Apart (ws : List Bytes) : Prop where
  capitals : ∀ w ∈ ws, ∀ c ∈ w, isUpper c = true
  long : ∀ w ∈ ws, 2 ≤ w.length
  heads : ∀ w ∈ ws, ∀ v ∈ ws, ∀ c ∈ w.tail, v.head? ≠ some c
  prefixes : ∀ w ∈ ws, ∀ v ∈ ws, w <+: v → w = v

instance (ws : List Bytes) : Decidable (Apart ws) :=
  decidable_of_iff ((∀ w ∈ ws, ∀ c ∈ w, isUpper c = true) ∧ (∀ w ∈ ws, 2 ≤ w.length) ∧
    (∀ w ∈ ws, ∀ v ∈ ws, ∀ c ∈ w.tail, v.head? ≠ some c) ∧ ∀ w ∈ ws, ∀ v ∈ ws, w <+: v → w = v)
    ⟨fun h => ⟨h.1, h.2.1, h.2.2.1, h.2.2.2⟩, fun h => ⟨h.capitals, h.long, h.heads, h.prefixes⟩⟩

section
variable {ws : List Bytes} {s : Bytes} {w v : Bytes} {i j k : Nat}

theorem getElem?_of_stands (h : w <+: s.drop j) (hk : k < w.length) : s[j + k]? = w[k]? := by
  obtain ⟨r, hr⟩ := h
  rw [← List.getElem?_drop, ← hr, List.getElem?_append_left hk]

theorem stands_iff : w <+: s.drop j ↔ ∀ k < w.length, s[j + k]? = w[k]? := by
  constructor
  · intro h k hk
    exact getElem?_of_stands h hk
  · intro h
    rw [List.prefix_iff_getElem?]
    intro k hk
    rw [List.getElem?_drop, h k hk, List.getElem?_eq_getElem hk]

/-- Two words that share a character of the text are one. -/
theorem Apart.eq_of_overlap (h : Apart ws) (hw : w ∈ ws) (hv : v ∈ ws) (hsw : w <+: s.drop i) (hsv : v <+: s.drop j)
    (hiw : i ≤ k) (hkw : k < i + w.length) (hjv : j ≤ k) (hkv : k < j + v.length) : i = j ∧ w = v := by
  -- the head of the later one would lie within the earlier
  have hle : ∀ {w v : Bytes} {i j : Nat}, w ∈ ws → v ∈ ws → w <+: s.drop i → v <+: s.drop j → j < i + w.length →
      0 < v.length → j ≤ i := by
    intro w v i j hw hv hsw hsv hj hpos
    by_contra hlt
    have hhead : v.head? = w[j - i]? := by
      have hw' := getElem?_of_stands hsw (show j - i < w.length by omega)
      have hv' := getElem?_of_stands hsv hpos
      rw [show i + (j - i) = j by omega] at hw'
      rw [List.head?_eq_getElem?, ← hw', ← hv', Nat.add_zero]
    obtain ⟨n, hn⟩ : ∃ n, j - i = n + 1 := ⟨j - i - 1, by omega⟩
    rw [hn, ← List.getElem?_tail] at hhead
    cases htail : w.tail[n]? with
    | none =>
      rw [List.getElem?_eq_none_iff, List.length_tail] at htail
      omega
    | some c => exact h.heads w hw v hv c (List.mem_of_getElem? htail) (hhead.trans htail)
  have hij : i = j := by
    have := h.long w hw
    have := h.long v hv
    exact le_antisymm (hle hv hw hsv hsw (by omega) (by omega)) (hle hw hv hsw hsv (by omega) (by omega))
  subst hij
  refine ⟨rfl, ?_⟩
  rcases List.prefix_or_prefix_of_prefix hsw hsv with hp | hp
  · exact h.prefixes w hw v hv hp
  · exact (h.prefixes v hv w hw hp).symm

end

/-! ## Spellings -/

instance (m : Match) (i : Nat) : Decidable (m.Between i) :=
  inferInstanceAs (Decidable (m.pos ≤ i ∧ i < m.pos + m.len ∧ ∀ g ∈ m.groups, ¬ (g.2.1 ≤ i ∧ i < g.2.1 + g.2.2)))

/-- Where the match has words outside its groups, in whatever case, with their lengths. -/
def Match.words (m : Match) (ws : List Bytes) (s : Bytes) : List (Nat × Nat) :=
  (List.range s.length).flatMap fun i =>
    (ws.filter fun w => m.Between i ∧ w <+: (s.map toUpper).drop i).map fun w => (i, w.length)

def Within (words : List (Nat × Nat)) (i : Nat) : Prop := ∃ k ∈ words, k.1 ≤ i ∧ i < k.1 + k.2

instance (words : List (Nat × Nat)) (i : Nat) : Decidable (Within words i) :=
  inferInstanceAs (Decidable (∃ k ∈ words, k.1 ≤ i ∧ i < k.1 + k.2))

/-- The words of `capital` in capitals; the others have only their first letter a capital, or only their first letter small. -/
def Match.spelling (m : Match) (ws : List Bytes) (s : Bytes) (capital : List (Nat × Nat)) (first : Bool) : Bytes :=
  s.mapIdx fun i c =>
    if m.Between i then
      if Within capital i ∨ ((∃ k ∈ m.words ws s, k.1 = i) ↔ first = true) then toUpper c else toLower c
    else c

/-- Some of the match's words in capitals, and the others in one of these two ways. -/
def Match.spellings (m : Match) (ws : List Bytes) (s : Bytes) : List Bytes :=
  (m.words ws s).sublists.flatMap fun capital => [m.spelling ws s capital true, m.spelling ws s capital false]

/-- But for case `t` is what `a` and `b` are wherever these two agree. -/
structure Blend (f : UInt8 → UInt8) (a b t : Bytes) : Prop where
  left : a.map f = t.map f
  right : b.map f = t.map f
  agree : ∀ i : Nat, a[i]? = b[i]? → t[i]? = a[i]?

/-- `t` is `s` with other letters, capital or small, between the groups. -/
structure Match.Respells (m : Match) (s t : Bytes) : Prop where
  image : t.map toUpper = s.map toUpper
  outside : ∀ i : Nat, ¬ m.Between i → t[i]? = s[i]?

section
variable {p : Pattern} {ws : List Bytes} {s t w : Bytes} {m : Match} {i j : Nat} {capital : List (Nat × Nat)} {first : Bool}

theorem mem_words {k : Nat × Nat} : k ∈ m.words ws s ↔ m.Between k.1 ∧ k.1 < s.length ∧
    ∃ w ∈ ws, w <+: (s.map toUpper).drop k.1 ∧ w.length = k.2 := by
  obtain ⟨i, n⟩ := k
  simp only [Match.words, List.mem_flatMap, List.mem_range, List.mem_map, List.mem_filter, decide_eq_true_eq, Prod.mk.injEq]
  constructor
  · rintro ⟨i', hi, w, ⟨hw, hbetween, hs⟩, rfl, rfl⟩
    exact ⟨hbetween, hi, w, hw, hs, rfl⟩
  · rintro ⟨hbetween, hi, w, hw, hs, rfl⟩
    exact ⟨i, hi, w, ⟨hw, hbetween, hs⟩, rfl, rfl⟩

theorem getElem?_spelling (i : Nat) : (m.spelling ws s capital first)[i]? = s[i]?.map fun c =>
    if m.Between i then
      if Within capital i ∨ ((∃ k ∈ m.words ws s, k.1 = i) ↔ first = true) then toUpper c else toLower c
    else c := by
  rw [Match.spelling, List.getElem?_mapIdx]

theorem respells_spelling : m.Respells s (m.spelling ws s capital first) := by
  refine ⟨List.ext_getElem? fun i => ?_, fun i hi => ?_⟩
  · rw [List.getElem?_map, List.getElem?_map, getElem?_spelling, Option.map_map]
    refine Option.map_congr fun c _ => ?_
    simp only [Function.comp_apply]
    split
    · split
      · exact toUpper_toUpper c
      · exact toUpper_toLower c
    · rfl
  · rw [getElem?_spelling]
    simp [hi]

/-! ## What decides a search -/

theorem toUpper_of_isUpper {c : UInt8} (h : isUpper c = true) : toUpper c = c ∧ toLower c ≠ c := by
  have hlower : isLower c = false := by
    simp only [isUpper, isLower, Bool.and_eq_true, decide_eq_true_eq, Bool.and_eq_false_iff, decide_eq_false_iff_not,
      UInt8.le_iff_toNat_le, UInt8.reduceToNat] at *
    omega
  refine ⟨by simp [toUpper, hlower], fun hsame => ?_⟩
  rw [toLower, if_pos h] at hsame
  have hsum := congrArg UInt8.toNat hsame
  simp only [UInt8.toNat_add, UInt8.reduceToNat] at hsum
  omega

theorem Apart.image (h : Apart ws) (hw : w ∈ ws) : w.map toUpper = w :=
  (List.map_congr_left fun c hc => (toUpper_of_isUpper (h.capitals w hw c hc)).1).trans (List.map_id w)

/-- A word that stands in the capitals is between the groups, or none of it is. -/
theorem between_or_outside (hp : p.Worded toUpper ws) (hws : Apart ws) (hm : search p (s.map toUpper) = some m) (hw : w ∈ ws)
    (hs : w <+: (s.map toUpper).drop i) : (∀ k, i ≤ k → k < i + w.length → m.Between k) ∨
      ∀ k, i ≤ k → k < i + w.length → ¬ m.Between k := by
  by_cases hsome : ∃ k, i ≤ k ∧ k < i + w.length ∧ m.Between k
  · obtain ⟨k, hik, hki, hk⟩ := hsome
    obtain ⟨n, rfl⟩ := Nat.exists_eq_add_of_le hik
    have hchar := getElem?_of_stands hs (show n < w.length by omega)
    rw [List.getElem?_eq_getElem (show n < w.length by omega)] at hchar
    rcases word_of_between hp hm hk hchar with hsole | ⟨v, hv, j, hsv, hbetween, hj, hvj⟩
    · have hcap := toUpper_of_isUpper (hws.capitals w hw _ (List.getElem_mem (show n < w.length by omega)))
      exact absurd (hsole _ ((toUpper_toLower _).trans hcap.1)) hcap.2
    · obtain ⟨rfl, rfl⟩ := hws.eq_of_overlap hw hv hs hsv hik hki hj hvj
      exact Or.inl hbetween
  · exact Or.inr fun k hik hki hk => hsome ⟨k, hik, hki, hk⟩

/-- How a word of the match is spelled. -/
theorem spelling_word (hws : Apart ws) (hcapital : capital ⊆ m.words ws s) (hw : w ∈ ws) (hs : w <+: (s.map toUpper).drop i)
    (hbetween : ∀ k, i ≤ k → k < i + w.length → m.Between k) {k : Nat} {x : UInt8} (hx : w[k]? = some x) :
    (m.spelling ws s capital first)[i + k]? =
      some (if (i, w.length) ∈ capital ∨ (k = 0 ↔ first = true) then x else toLower x) := by
  have hk : k < w.length := (List.getElem?_eq_some_iff.1 hx).1
  have hchar := getElem?_of_stands hs hk
  rw [hx, List.getElem?_map, Option.map_eq_some_iff] at hchar
  obtain ⟨c, hc, rfl⟩ := hchar
  have hsame : ∀ key ∈ m.words ws s, key.1 ≤ i + k → i + k < key.1 + key.2 → key = (i, w.length) := by
    rintro ⟨j, n⟩ hkey hj hn
    obtain ⟨-, -, v, hv, hsv, rfl⟩ := mem_words.1 hkey
    obtain ⟨rfl, rfl⟩ := hws.eq_of_overlap hw hv hs hsv (by omega) (by omega) hj hn
    rfl
  have hwithin : Within capital (i + k) ↔ (i, w.length) ∈ capital := by
    constructor
    · rintro ⟨key, hkey, hlo, hhi⟩
      rwa [← hsame key (hcapital hkey) hlo hhi]
    · intro hmem
      exact ⟨_, hmem, by simp, by simpa using hk⟩
  have hfirst : (∃ key ∈ m.words ws s, key.1 = i + k) ↔ k = 0 := by
    constructor
    · rintro ⟨key, hkey, hpos⟩
      obtain ⟨-, -, v, hv, -, hlen⟩ := mem_words.1 hkey
      have hlong := hws.long v hv
      have := congrArg Prod.fst (hsame key hkey (by omega) (by omega))
      simp only at this
      omega
    · rintro rfl
      have hbelow : i < s.length := (List.getElem?_eq_some_iff.1 hc).1
      exact ⟨(i, w.length), mem_words.2 ⟨hbetween i le_rfl (by omega), hbelow, w, hw, hs, rfl⟩, rfl⟩
  rw [getElem?_spelling, hc, Option.map_some, if_pos (hbetween _ (by omega) (by omega)), toLower_toUpper]
  simp only [hwithin, hfirst]

/-- The words of the match that `t` has in capitals. -/
def Match.inCapitals (m : Match) (ws : List Bytes) (s t : Bytes) : List (Nat × Nat) :=
  (m.words ws s).filter fun k => (t.drop k.1).take k.2 = ((s.map toUpper).drop k.1).take k.2

theorem Match.Respells.stands (ht : m.Respells s t) (hws : Apart ws) (hw : w ∈ ws) (h : w <+: t.drop i) :
    w <+: (s.map toUpper).drop i := by
  have himage := h.map toUpper
  rwa [hws.image hw, List.map_drop, ht.image] at himage

theorem mem_inCapitals (hw : w ∈ ws) (hs : w <+: (s.map toUpper).drop i) (hlong : 0 < w.length)
    (hbetween : ∀ k, i ≤ k → k < i + w.length → m.Between k) : (i, w.length) ∈ m.inCapitals ws s t ↔ w <+: t.drop i := by
  have hbelow : i < s.length := by
    have hchar := getElem?_of_stands hs hlong
    rw [List.getElem?_eq_getElem hlong, List.getElem?_map, Option.map_eq_some_iff] at hchar
    obtain ⟨c, hc, -⟩ := hchar
    exact (List.getElem?_eq_some_iff.1 hc).1
  have hkey : (i, w.length) ∈ m.words ws s := mem_words.2 ⟨hbetween i le_rfl (by omega), hbelow, w, hw, hs, rfl⟩
  rw [Match.inCapitals, List.mem_filter, decide_eq_true_eq, ← List.prefix_iff_eq_take.1 hs, List.prefix_iff_eq_take, eq_comm]
  exact and_iff_right hkey

/-- A letter of a word that is not in capitals is small. -/
theorem exists_small (hws : Apart ws) (hw : w ∈ ws) (first : Bool) : ∃ k x, w[k]? = some x ∧ toLower x ≠ x ∧
    ¬ (k = 0 ↔ first = true) := by
  have hlong := hws.long w hw
  have hletter : ∀ k (hk : k < w.length), ∃ x, w[k]? = some x ∧ toLower x ≠ x := fun k hk =>
    ⟨w[k], List.getElem?_eq_getElem hk, (toUpper_of_isUpper (hws.capitals w hw _ (List.getElem_mem hk))).2⟩
  cases first with
  | true =>
    obtain ⟨x, hx, hsmall⟩ := hletter 1 (by omega)
    exact ⟨1, x, hx, hsmall, by simp⟩
  | false =>
    obtain ⟨x, hx, hsmall⟩ := hletter 0 (by omega)
    exact ⟨0, x, hx, hsmall, by simp⟩

/-- **Both spellings have the words where the text has them.** -/
theorem sameWords_spelling (hp : p.Worded toUpper ws) (hws : Apart ws) (hm : search p (s.map toUpper) = some m)
    (ht : m.Respells s t) : SameWords ws t (m.spelling ws s (m.inCapitals ws s t) first) := by
  intro w hw i
  have hspelling : m.Respells s (m.spelling ws s (m.inCapitals ws s t) first) := respells_spelling
  have hlong := hws.long w hw
  by_cases hs : w <+: (s.map toUpper).drop i
  · rcases between_or_outside hp hws hm hw hs with hbetween | hout
    · rw [← mem_inCapitals hw hs (by omega) hbetween]
      have hword := @spelling_word ws s w m i (m.inCapitals ws s t) first hws (List.filter_subset_self _) hw hs hbetween
      constructor
      · intro hmem
        refine stands_iff.2 fun k hk => ?_
        rw [hword (List.getElem?_eq_getElem hk), if_pos (Or.inl hmem), List.getElem?_eq_getElem hk]
      · intro hstands
        by_contra hmem
        obtain ⟨k, x, hx, hsmall, hk⟩ := exists_small hws hw first
        have hchar := getElem?_of_stands hstands (List.getElem?_eq_some_iff.1 hx).1
        rw [hword hx, hx, if_neg (not_or.2 ⟨hmem, hk⟩), Option.some.injEq] at hchar
        exact hsmall hchar
    · rw [stands_iff, stands_iff]
      refine forall_congr' fun k => forall_congr' fun hk => ?_
      rw [ht.outside _ (hout _ (by omega) (by omega)), hspelling.outside _ (hout _ (by omega) (by omega))]
  · exact iff_of_false (fun h => hs (ht.stands hws hw h)) fun h => hs (hspelling.stands hws hw h)

theorem exists_getElem?_of_image {f : UInt8 → UInt8} {u : Bytes} {x : UInt8} (h : t.map f = u) (hx : u[i]? = some x) :
    ∃ y, t[i]? = some y ∧ f y = x := by
  rwa [← h, List.getElem?_map, Option.map_eq_some_iff] at hx

/-- **But for case the text is what the two spellings are where they agree.** -/
theorem blend_spelling (hp : p.Worded toUpper ws) (hws : Apart ws) (hm : search p (s.map toUpper) = some m)
    (ht : m.Respells s t) : Blend toUpper (m.spelling ws s (m.inCapitals ws s t) true)
      (m.spelling ws s (m.inCapitals ws s t) false) t := by
  have hspelling : ∀ first, m.Respells s (m.spelling ws s (m.inCapitals ws s t) first) := fun _ => respells_spelling
  refine ⟨(hspelling true).image.trans ht.image.symm, (hspelling false).image.trans ht.image.symm, fun i hagree => ?_⟩
  by_cases hi : m.Between i
  · cases hx : (s.map toUpper)[i]? with
    | none =>
      have hnone : ∀ u : Bytes, m.Respells s u → u[i]? = none := by
        intro u hu
        rwa [← hu.image, List.getElem?_map, Option.map_eq_none_iff] at hx
      rw [hnone t ht, hnone _ (hspelling true)]
    | some x =>
      rcases word_of_between hp hm hi hx with hsole | ⟨w, hw, j, hs, hbetween, hj, hij⟩
      · have hown : ∀ u : Bytes, m.Respells s u → u[i]? = some x := by
          intro u hu
          obtain ⟨y, hy, hyx⟩ := exists_getElem?_of_image hu.image hx
          rw [hy, hsole y hyx]
        rw [hown t ht, hown _ (hspelling true)]
      · obtain ⟨k, rfl⟩ := Nat.exists_eq_add_of_le hj
        have hwk : w[k]? = some x := by rw [← getElem?_of_stands hs (by omega), hx]
        have hword := fun first =>
          @spelling_word ws s w m j (m.inCapitals ws s t) first hws (List.filter_subset_self _) hw hs hbetween k x hwk
        by_cases hmem : (j, w.length) ∈ m.inCapitals ws s t
        · have hstands := (mem_inCapitals hw hs (by omega) hbetween).1 hmem
          rw [hword, if_pos (Or.inl hmem), getElem?_of_stands hstands (by omega), hwk]
        · -- in one of the two the letter is small
          have hsmall := (toUpper_of_isUpper (hws.capitals w hw x (List.mem_of_getElem? hwk))).2
          rw [hword, hword] at hagree
          by_cases hk : k = 0
          · have hsame : x = toLower x := by simpa [hmem, hk] using hagree
            exact absurd hsame.symm hsmall
          · have hsame : toLower x = x := by simpa [hmem, hk] using hagree
            exact absurd hsame hsmall
  · rw [ht.outside i hi, (hspelling true).outside i hi]

/-- **It is enough to look at finitely many spellings**, for what depends on the search and agrees with two spellings where
these agree. -/
theorem forall_spellings_iff {Q : Bytes → Prop} (hp : p.Worded toUpper ws) (hws : Apart ws)
    (hm : search p (s.map toUpper) = some m) (hQ : ∀ a b t, Blend toUpper a b t → search p a = search p t →
      search p b = search p t → Q a → Q b → Q t) :
    (∀ t, m.Respells s t → Q t) ↔ ∀ t ∈ m.spellings ws s, Q t := by
  have hfinds : ∀ t first, m.Respells s t →
      search p (m.spelling ws s (m.inCapitals ws s t) first) = search p t := fun t first ht =>
    (search_of_sameWords hp (ht.image.trans respells_spelling.image.symm) (sameWords_spelling hp hws hm ht)).symm
  constructor
  · intro hall t ht
    obtain ⟨capital, -, ht⟩ := List.mem_flatMap.1 ht
    rcases List.mem_pair.1 ht with rfl | rfl
    · exact hall _ respells_spelling
    · exact hall _ respells_spelling
  · intro hall t ht
    have hmem : ∀ first, m.spelling ws s (m.inCapitals ws s t) first ∈ m.spellings ws s := by
      intro first
      refine List.mem_flatMap.2 ⟨m.inCapitals ws s t, List.mem_sublists.2 List.filter_sublist, ?_⟩
      cases first <;> simp
    exact hQ _ _ t (blend_spelling hp hws hm ht) (hfinds t true ht) (hfinds t false ht) (hall _ (hmem true))
      (hall _ (hmem false))

end

/-! ## Parts of a text and of two spellings -/

namespace Blend

variable {f : UInt8 → UInt8} {a b t : Bytes} {q : UInt8 → Bool}

theorem eq (h : Blend f a b t) (hab : a = b) : t = a := List.ext_getElem? fun i => h.agree i (by rw [hab])

theorem drop (h : Blend f a b t) (n : Nat) : Blend f (a.drop n) (b.drop n) (t.drop n) := by
  refine ⟨by rw [List.map_drop, List.map_drop, h.left], by rw [List.map_drop, List.map_drop, h.right], fun i => ?_⟩
  rw [List.getElem?_drop, List.getElem?_drop, List.getElem?_drop]
  exact h.agree (n + i)

theorem take (h : Blend f a b t) (n : Nat) : Blend f (a.take n) (b.take n) (t.take n) := by
  refine ⟨by rw [List.map_take, List.map_take, h.left], by rw [List.map_take, List.map_take, h.right], fun i => ?_⟩
  rw [List.getElem?_take, List.getElem?_take, List.getElem?_take]
  split
  · exact h.agree i
  · exact fun _ => rfl

theorem length (h : Blend f a b t) : a.length = t.length ∧ b.length = t.length := by
  constructor
  · simpa using congrArg List.length h.left
  · simpa using congrArg List.length h.right

theorem reverse (h : Blend f a b t) : Blend f a.reverse b.reverse t.reverse := by
  refine ⟨by rw [List.map_reverse, List.map_reverse, h.left], by rw [List.map_reverse, List.map_reverse, h.right],
    fun i hi => ?_⟩
  obtain ⟨ha, hb⟩ := h.length
  by_cases hlt : i < t.length
  · rw [List.getElem?_reverse (ha ▸ hlt), List.getElem?_reverse (hb ▸ hlt), ha, hb] at hi
    rw [List.getElem?_reverse hlt, List.getElem?_reverse (ha ▸ hlt), ha]
    exact h.agree _ hi
  · rw [List.getElem?_eq_none (by simpa using hlt), List.getElem?_eq_none (by simpa [ha] using hlt)]

theorem dropWhile (h : Blend f a b t) (hq : Regex.Blind f q) : Blend f (a.dropWhile q) (b.dropWhile q) (t.dropWhile q) := by
  have hlen : ∀ {u v : Bytes}, u.map f = v.map f → (u.takeWhile q).length = (v.takeWhile q).length := by
    intro u v huv
    simpa [hq.takeWhile_map] using congrArg (fun s => (s.takeWhile q).length) huv
  have hdrop : ∀ u : Bytes, u.dropWhile q = u.drop (u.takeWhile q).length := by
    intro u
    calc u.dropWhile q = (u.takeWhile q ++ u.dropWhile q).drop (u.takeWhile q).length := (List.drop_left' rfl).symm
      _ = u.drop (u.takeWhile q).length := by rw [List.takeWhile_append_dropWhile]
  rw [hdrop a, hdrop b, hdrop t, hlen h.left, hlen h.right]
  exact h.drop _

theorem str (h : Blend f a b t) (m : Match) (n : Nat) : Blend f (m.str n a) (m.str n b) (m.str n t) := by
  rw [Match.str, Match.str, Match.str]
  cases m.groups.lookup n with
  | none => exact ⟨rfl, rfl, fun _ _ => rfl⟩
  | some g => exact (h.drop g.1).take g.2

theorem findAll {p : Pattern} (h : Blend f a b t) (hp : p.Blind f) : findAll p a = findAll p t ∧ findAll p b = findAll p t := by
  constructor
  · rw [← findAll_map hp a, h.left, findAll_map hp]
  · rw [← findAll_map hp b, h.right, findAll_map hp]

end Blend

end Regex
