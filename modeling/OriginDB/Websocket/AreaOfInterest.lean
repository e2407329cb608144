import OriginDB.Changefeed.Prefixes
import OriginDB.Changefeed.SelectText
/-!
# The snapshot's predicate (`src/websocket/websocket_server.cpp:1104-1125`)

`SendInitialState` looks for the WHERE clause of a query with a regular expression of its own, which searches, takes as
little as it can, and stops before `ORDER BY` or `LIMIT`. What it finds is the subscription's clause when no earlier
WHERE is taken for it, neither of these words stands in it and no line break is behind it.
-/
namespace OriginDB

open JsonDoc ByteCodec Regex Predicate

namespace AreaOfInterest

section Patterns
open Pattern

/-- `\bORDER\s+BY\b`. -/
def orderBy : Regex.Pattern :=
  all [.wordBoundary, litI (str "ORDER"), plus true isSpace, litI (str "BY"), .wordBoundary]

/-- `\bLIMIT\b`. -/
def limit : Regex.Pattern := all [.wordBoundary, litI (str "LIMIT"), .wordBoundary]

/-- `\bWHERE\b\s+(.+?)(?:\bORDER\s+BY\b|\bLIMIT\b|$)`, ignoring case (websocket_server.cpp:1117). -/
def wherePattern : Regex.Pattern :=
  all [.wordBoundary, litI (str "WHERE"), .wordBoundary, plus true isSpace, .group 1 (plus false isDot),
    .alt orderBy (.alt limit .atEnd)]

end Patterns

/-- `wm[1]`, if the search finds anything. -/
def whereClause (sqlQuery : Bytes) : Option Bytes := (search wherePattern sqlQuery).map fun wm => wm.str 1 sqlQuery

/-- `aoi_pred`; without one every row stays. -/
def predicate (sqlQuery : Bytes) : Option Predicate.Node :=
  match whereClause sqlQuery with
  | none => none
  | some wc =>
    match Predicate.parse wc with
    | .ok node => some node
    | .error _ => none

/-! ## Where the pattern stops -/

/-- `ORDER BY` or `LIMIT` stands behind `x` as words. -/
def Interrupts (x y : Bytes) : Prop :=
  x.getLast?.any isWord = false ∧
    ((∃ word gap word' rest, y = word ++ (gap ++ (word' ++ rest)) ∧ SpelledAs "order" word ∧ IsGap gap ∧ SpelledAs "by" word' ∧
        Leaves isWord rest) ∨
      ∃ word rest, y = word ++ rest ∧ SpelledAs "limit" word ∧ Leaves isWord rest)

section
variable {x y before rest : Bytes}

/-- The keywords of the pattern. -/
def patternKeywords : List String := ["where", "order", "by", "limit"]

theorem patternKeywords_letters : ∀ keyword ∈ patternKeywords, str keyword ≠ [] ∧ ∀ c ∈ str keyword, isAlpha (toLower c) = true := by
  decide +kernel

section
variable {keyword : String} {word : Bytes}

theorem ne_nil_of_spelledAs (h : SpelledAs keyword word) (hk : keyword ∈ patternKeywords) : word ≠ [] := by
  rintro rfl
  exact (patternKeywords_letters keyword hk).1 (List.map_eq_nil_iff.1 h.symm)

/-- However a keyword is spelled, it is letters. -/
theorem isAlpha_of_spelledAs (h : SpelledAs keyword word) (hk : keyword ∈ patternKeywords) : ∀ c ∈ word, isAlpha c = true := by
  intro c hc
  have hmem : toLower c ∈ (str keyword).map toLower := by
    rw [← h]
    exact List.mem_map_of_mem hc
  obtain ⟨d, hd, hcd⟩ := List.mem_map.1 hmem
  have hlower : isAlpha (toLower c) = true := by
    rw [← hcd]
    exact (patternKeywords_letters keyword hk).2 d hd
  have hall := forall_byte (p := fun c => !isAlpha (toLower c) || isAlpha c) (by decide +kernel) c
  simpa [hlower] using hall

theorem isWord_of_spelledAs (h : SpelledAs keyword word) (hk : keyword ∈ patternKeywords) : ∀ c ∈ word, isWord c = true := by
  intro c hc
  simp [isWord, isAlnum, isAlpha_of_spelledAs h hk c hc]

end

/-- A boundary before a word character. -/
theorem boundary_word {c : UInt8} (hc : isWord c = true) : boundary before (c :: y) = true ↔ before.head?.any isWord = false := by
  simp [boundary, hc]

/-- A boundary behind a word character. -/
theorem word_boundary {c : UInt8} (hc : isWord c = true) : boundary (c :: before) y = true ↔ Leaves isWord y := by
  cases y with
  | nil => simp [boundary, hc, leaves_nil]
  | cons b y =>
    simp only [boundary, List.head?_cons, Option.any_some, hc]
    constructor
    · rintro h b' y' ⟨⟩
      simpa using h
    · intro h
      simp [h b y rfl]

/-- A word that begins and ends at boundaries. -/
theorem boundary_before_word {word : Bytes} (hne : word ≠ []) (hword : ∀ c ∈ word, isWord c = true) :
    boundary before (word ++ rest) = true ↔ before.head?.any isWord = false := by
  obtain ⟨c, word, rfl⟩ := List.exists_cons_of_ne_nil hne
  exact boundary_word (hword c List.mem_cons_self)

theorem boundary_behind_word {word : Bytes} (hne : word ≠ []) (hword : ∀ c ∈ word, isWord c = true) :
    boundary (word.reverse ++ before) rest = true ↔ Leaves isWord rest := by
  obtain ⟨u, c, rfl⟩ : ∃ u c, word = u ++ [c] := ⟨word.dropLast, word.getLast hne, (List.dropLast_concat_getLast hne).symm⟩
  rw [List.reverse_append, List.reverse_singleton, List.singleton_append, List.cons_append]
  exact word_boundary (hword c (by simp))

theorem matchesAt_limit_iff : limit.MatchesAt before y ↔
    before.head?.any isWord = false ∧ ∃ word rest, y = word ++ rest ∧ SpelledAs "limit" word ∧ Leaves isWord rest := by
  have hk : "limit" ∈ patternKeywords := by simp [patternKeywords]
  constructor
  · rintro ⟨w, r, rfl, _, v, rfl, ⟨rfl, hfirst⟩, word, _, rfl, hword, rfl, hlast⟩
    rw [matches_litI] at hword
    have hspelled : SpelledAs "limit" word := hword
    have hne := ne_nil_of_spelledAs hspelled hk
    have hall := isWord_of_spelledAs hspelled hk
    rw [List.append_nil, List.nil_append] at *
    exact ⟨(boundary_before_word hne hall).1 hfirst, word, r, rfl, hspelled, (boundary_behind_word hne hall).1 hlast⟩
  · rintro ⟨hbefore, word, rest, rfl, hspelled, hrest⟩
    have hne := ne_nil_of_spelledAs hspelled hk
    have hall := isWord_of_spelledAs hspelled hk
    refine ⟨word, rest, rfl, [], word, rfl, ⟨rfl, (boundary_before_word hne hall).2 hbefore⟩, word, [], by simp, ?_, rfl, ?_⟩
    · rw [matches_litI]
      exact hspelled
    · exact (boundary_behind_word hne hall).2 hrest

theorem matchesAt_orderBy_iff : orderBy.MatchesAt before y ↔
    before.head?.any isWord = false ∧ ∃ word gap word' rest, y = word ++ (gap ++ (word' ++ rest)) ∧ SpelledAs "order" word ∧
      IsGap gap ∧ SpelledAs "by" word' ∧ Leaves isWord rest := by
  have hk : "order" ∈ patternKeywords := by simp [patternKeywords]
  have hk' : "by" ∈ patternKeywords := by simp [patternKeywords]
  constructor
  · rintro ⟨w, r, rfl, _, v, rfl, ⟨rfl, hfirst⟩, word, _, rfl, hword, gap, _, rfl, hgap, word', _, rfl, hword', rfl, hlast⟩
    rw [matches_litI] at hword hword'
    rw [matches_plus] at hgap
    have hspelled : SpelledAs "order" word := hword
    have hspelled' : SpelledAs "by" word' := hword'
    have hne := ne_nil_of_spelledAs hspelled hk
    have hall := isWord_of_spelledAs hspelled hk
    have hne' := ne_nil_of_spelledAs hspelled' hk'
    have hall' := isWord_of_spelledAs hspelled' hk'
    rw [List.append_assoc] at hfirst
    refine ⟨(boundary_before_word hne hall).1 hfirst, word, gap, word', r, ?_, hspelled, hgap, hspelled',
      (boundary_behind_word hne' hall').1 hlast⟩
    simp only [List.nil_append, List.append_nil, List.append_assoc]
  · rintro ⟨hbefore, word, gap, word', rest, rfl, hspelled, hgap, hspelled', hrest⟩
    have hne := ne_nil_of_spelledAs hspelled hk
    have hall := isWord_of_spelledAs hspelled hk
    have hne' := ne_nil_of_spelledAs hspelled' hk'
    have hall' := isWord_of_spelledAs hspelled' hk'
    refine ⟨word ++ (gap ++ word'), rest, by simp only [List.append_assoc], [], _, rfl, ⟨rfl, ?_⟩, word, _, rfl, ?_, gap, _, rfl, ?_,
      word', [], by simp, ?_, rfl, ?_⟩
    · change boundary before (word ++ (gap ++ word') ++ rest) = true
      rw [List.append_assoc]
      exact (boundary_before_word hne hall).2 hbefore
    · rw [matches_litI]
      exact hspelled
    · rw [matches_plus]
      exact hgap
    · rw [matches_litI]
      exact hspelled'
    · exact (boundary_behind_word hne' hall').2 hrest

open Pattern in
/-- The pattern's text ends here. -/
theorem matchesAt_stop_iff (hx : x ≠ []) :
    (Pattern.alt orderBy (.alt limit .atEnd)).MatchesAt (x.reverse ++ before) y ↔ y = [] ∨ Interrupts x y := by
  have hhead : (x.reverse ++ before).head?.any isWord = x.getLast?.any isWord := by
    obtain ⟨u, c, rfl⟩ : ∃ u c, x = u ++ [c] := ⟨x.dropLast, x.getLast hx, (List.dropLast_concat_getLast hx).symm⟩
    simp
  have hsplit : (Pattern.alt orderBy (.alt limit .atEnd)).MatchesAt (x.reverse ++ before) y ↔
      orderBy.MatchesAt (x.reverse ++ before) y ∨ limit.MatchesAt (x.reverse ++ before) y ∨ y = [] := by
    constructor
    · rintro ⟨w, r, rfl, hm | hm | ⟨rfl, rfl⟩⟩
      · exact .inl ⟨w, r, rfl, hm⟩
      · exact .inr (.inl ⟨w, r, rfl, hm⟩)
      · exact .inr (.inr rfl)
    · rintro (⟨w, r, rfl, hm⟩ | ⟨w, r, rfl, hm⟩ | rfl)
      · exact ⟨w, r, rfl, .inl hm⟩
      · exact ⟨w, r, rfl, .inr (.inl hm)⟩
      · exact ⟨[], [], rfl, .inr (.inr ⟨rfl, rfl⟩)⟩
  rw [hsplit, matchesAt_orderBy_iff, matchesAt_limit_iff, hhead, Interrupts, and_or_left, or_comm (a := y = []), or_assoc]

end

/-! ## Where the pattern matches -/

/-- It takes `text` as the clause there: the shortest there is. -/
structure Takes (before s gap text rest : Bytes) : Prop where
  behind : before.head?.any isWord = false
  split : ∃ word, SpelledAs "where" word ∧ s = word ++ (gap ++ (text ++ rest))
  isGap : IsGap gap
  ne_nil : text ≠ []
  starts : Leaves isSpace text
  dot : ∀ c ∈ text, isDot c = true
  stops : rest = [] ∨ Interrupts text rest
  shortest : ∀ u v, text = u ++ v → u ≠ [] → v ≠ [] → ¬ Interrupts u (v ++ rest)

section
variable {before s word gap text rest : Bytes}

theorem isWord_where (h : SpelledAs "where" word) : word ≠ [] ∧ ∀ c ∈ word, isWord c = true :=
  have hk : "where" ∈ patternKeywords := by simp [patternKeywords]
  ⟨ne_nil_of_spelledAs h hk, isWord_of_spelledAs h hk⟩

theorem length_of_where (h : SpelledAs "where" word) : word.length = 5 := by
  have hlen := congrArg List.length h
  rw [List.length_map, List.length_map] at hlen
  exact hlen

/-- The first way is to take the clause. -/
theorem Takes.head?_run (h : Takes before s gap text rest) : ∃ d, (run wherePattern ⟨before, s, []⟩).head? = some d ∧
    d.groups.lookup 1 = some (before.length + 5 + gap.length, text.length) := by
  obtain ⟨word, hword, rfl⟩ := h.split
  obtain ⟨hne, hall⟩ := isWord_where hword
  have hupper : word.map toLower = (str "WHERE").map toLower := hword
  have hfirst : run .wordBoundary ⟨before, word ++ (gap ++ (text ++ rest)), []⟩ = [⟨before, word ++ (gap ++ (text ++ rest)), []⟩] :=
    if_pos ((boundary_before_word hne hall).2 h.behind)
  have hlast : run .wordBoundary ⟨word.reverse ++ before, gap ++ (text ++ rest), []⟩ =
      [⟨word.reverse ++ before, gap ++ (text ++ rest), []⟩] :=
    if_pos ((boundary_behind_word hne hall).2 (leaves_isWord_gap h.isGap))
  have hstart : Leaves isSpace (text ++ rest) := by
    obtain ⟨c, more, rfl⟩ := List.exists_cons_of_ne_nil h.ne_nil
    rintro x r ⟨⟩
    exact h.starts _ more rfl
  have hplus : (run (.plus true isSpace) ⟨word.reverse ++ before, gap ++ (text ++ rest), []⟩).head? =
      some ⟨gap.reverse ++ (word.reverse ++ before), text ++ rest, []⟩ := head?_run_plus h.isGap.1 h.isGap.2 hstart
  obtain ⟨d, hd⟩ := exists_head?_run (p := .alt orderBy (.alt limit .atEnd))
    (c := ⟨text.reverse ++ (gap.reverse ++ (word.reverse ++ before)), rest,
      [(1, (gap.reverse ++ (word.reverse ++ before)).length, text.length)]⟩) ((matchesAt_stop_iff h.ne_nil).2 h.stops)
  refine ⟨d, ?_, ?_⟩
  · refine head?_run_seq (by rw [hfirst]; rfl) (head?_run_seq (by rw [run_litI hupper]; rfl) (head?_run_seq (by rw [hlast]; rfl)
      (head?_run_seq hplus (head?_run_lazyGroup h.ne_nil h.dot ?_ hd))))
    intro u v huv hu hv hstop
    rcases (matchesAt_stop_iff hu).1 hstop with hnil | hint
    · exact hv (List.append_eq_nil_iff.1 hnil).1
    · exact h.shortest u v huv hu hv hint
  · rw [lookup_run (by simp [Pattern.groups, orderBy, limit, Pattern.all]) (mem_of_head? hd), List.lookup_cons_self]
    simp only [List.length_append, List.length_reverse, length_of_where hword]
    rw [Nat.add_comm gap.length, Nat.add_comm 5]

/-- What a way to match has gone through. -/
theorem way_spec {d : Cursor} (h : d ∈ run wherePattern ⟨before, s, []⟩) :
    ∃ word gap text rest, s = word ++ (gap ++ (text ++ rest)) ∧ before.head?.any isWord = false ∧ SpelledAs "where" word ∧
      IsGap gap ∧ text ≠ [] ∧ (∀ c ∈ text, isDot c = true) ∧ (rest = [] ∨ Interrupts text rest) ∧
      d.groups.lookup 1 = some ((before.length + 5) + gap.length, text.length) := by
  obtain ⟨e₁, h₁, h⟩ := mem_run_seq.1 h
  obtain ⟨e₂, h₂, h⟩ := mem_run_seq.1 h
  obtain ⟨e₃, h₃, h⟩ := mem_run_seq.1 h
  obtain ⟨e₄, h₄, h⟩ := mem_run_seq.1 h
  obtain ⟨e₅, h₅, h⟩ := mem_run_seq.1 h
  obtain ⟨_, ha₁, hb₁, rfl, hfirst⟩ := mem_run h₁
  obtain ⟨word, ha₂, hb₂, hword⟩ := mem_run h₂
  obtain ⟨_, ha₃, hb₃, rfl, -⟩ := mem_run h₃
  obtain ⟨gap, ha₄, hb₄, hgap⟩ := mem_run h₄
  obtain ⟨text, ha₅, hb₅, htext⟩ := mem_run h₅
  obtain ⟨w, ha, -, hstop⟩ := mem_run h
  rw [matches_litI] at hword
  rw [matches_plus] at hgap
  rw [matches_group, matches_plus] at htext
  simp only [List.nil_append, List.reverse_nil] at ha₁ hb₁ ha₃ hb₃
  have hspelled : SpelledAs "where" word := hword
  obtain ⟨hne, hall⟩ := isWord_where hspelled
  refine ⟨word, gap, text, e₅.after, ?_, ?_, hspelled, hgap, htext.1, htext.2, ?_, ?_⟩
  · rw [← ha₅, ← ha₄, ← ha₃, ← ha₂]
    exact ha₁
  · rw [ha₂] at hfirst
    exact (boundary_before_word hne hall).1 hfirst
  · rw [hb₅] at hstop
    exact (matchesAt_stop_iff htext.1).1 ⟨w, d.after, ha, hstop⟩
  · rw [lookup_run (by simp [Pattern.groups, orderBy, limit, Pattern.all]) h, lookup_group h₅, hb₅, hb₄, hb₃, hb₂, hb₁]
    simp only [List.length_append, List.length_reverse, length_of_where hspelled]
    congr 2 <;> omega

/-- Somewhere the clause ends first. -/
theorem exists_takes (hbefore : before.head?.any isWord = false) (hword : SpelledAs "where" word) (hgap : IsGap gap)
    (hne : text ≠ []) (hstart : Leaves isSpace text) (hdot : ∀ c ∈ text, isDot c = true) (hstop : rest = [] ∨ Interrupts text rest) :
    ∃ text' rest', Takes before (word ++ (gap ++ (text ++ rest))) gap text' rest' := by
  induction hn : text.length using Nat.strongRecOn generalizing text rest with
  | ind n ih =>
    by_cases hshort : ∃ u v, text = u ++ v ∧ u ≠ [] ∧ v ≠ [] ∧ Interrupts u (v ++ rest)
    · obtain ⟨u, v, rfl, hu, hv, hint⟩ := hshort
      have hlen := List.length_pos_iff.2 hv
      rw [List.length_append] at hn
      have hstart' : Leaves isSpace u := by
        rintro x r rfl
        exact hstart x (r ++ v) rfl
      obtain ⟨text', rest', htakes⟩ := ih u.length (by omega) hu hstart' (fun c hc => hdot c (by simp [hc])) (.inr hint) rfl
      rw [List.append_assoc]
      exact ⟨text', rest', htakes⟩
    · refine ⟨text, rest, hbefore, ⟨word, hword, rfl⟩, hgap, hne, hstart, hdot, hstop, fun u v huv hu hv hint => ?_⟩
      exact hshort ⟨u, v, huv, hu, hv, hint⟩

end

/-! ## What the search finds -/

section
variable {l t sqlQuery gap wc rest : Bytes}

/-- At the first place the clause is what the pattern takes there. -/
theorem Takes.whereClause (h : Takes l.reverse t gap wc rest) (hfirst : wherePattern.Misses l t) : whereClause (l ++ t) = some wc := by
  obtain ⟨d, hd, hgroup⟩ := h.head?_run
  obtain ⟨word, hword, rfl⟩ := h.split
  rw [AreaOfInterest.whereClause, search_of_first hfirst hd, Option.map_some]
  refine congrArg some (str_of_lookup (l ++ (word ++ gap)) rest ?_ ?_)
  · simp only [hgroup, List.length_append, List.length_reverse, length_of_where hword]
    rw [Nat.add_assoc]
  · simp only [List.append_assoc]

theorem Takes.matchesAt (h : Takes l.reverse t gap wc rest) : wherePattern.MatchesAt l.reverse t := by
  obtain ⟨d, hd, -⟩ := h.head?_run
  obtain ⟨w, hw, -, hm⟩ := mem_run (mem_of_head? hd)
  exact ⟨w, d.after, hw, hm⟩

/-- **The search** finds the clause at the first place there is, or nothing but spaces. -/
theorem whereClause_cases (h : whereClause sqlQuery = some wc) : ∃ l t, sqlQuery = l ++ t ∧ wherePattern.Misses l t ∧
    ((∃ gap rest, Takes l.reverse t gap wc rest) ∨ ∀ c ∈ wc, isSpace c = true) := by
  obtain ⟨m, hm, -⟩ := Option.map_eq_some_iff.1 h
  have hoccurs : wherePattern.Occurs sqlQuery := search_isSome.1 (by rw [hm]; rfl)
  obtain ⟨l, t, rfl, hfirst, hat⟩ := exists_first hoccurs
  refine ⟨l, t, rfl, hfirst, ?_⟩
  obtain ⟨d, hd⟩ := exists_head?_run (c := ⟨l.reverse, t, []⟩) hat
  obtain ⟨word, gap, text, rest, rfl, hbefore, hword, hgap, hne, hdot, hstop, hgroup⟩ := way_spec (mem_of_head? hd)
  have htext : whereClause (l ++ (word ++ (gap ++ (text ++ rest)))) = some text := by
    rw [AreaOfInterest.whereClause, search_of_first hfirst hd, Option.map_some]
    refine congrArg some (str_of_lookup (l ++ (word ++ gap)) rest ?_ ?_)
    · simp only [hgroup, List.length_append, List.length_reverse, length_of_where hword]
      rw [Nat.add_assoc]
    · simp only [List.append_assoc]
  rw [htext, Option.some.injEq] at h
  subst h
  by_cases hblank : text.dropWhile isSpace = []
  · right
    exact List.dropWhile_eq_nil_iff.1 hblank
  · left
    -- with all the spaces before it, there is a clause
    have hlast : text.getLast? = (text.dropWhile isSpace).getLast? := by
      have happend : (text.takeWhile isSpace ++ text.dropWhile isSpace).getLast? = _ := List.getLast?_append
      rw [List.takeWhile_append_dropWhile] at happend
      rw [happend, List.getLast?_eq_some_getLast hblank, Option.some_or]
    have hstop' : rest = [] ∨ Interrupts (text.dropWhile isSpace) rest := by
      rw [Interrupts, ← hlast]
      exact hstop
    have hgap' : IsGap (gap ++ text.takeWhile isSpace) := by
      refine ⟨by simp [hgap.1], fun c hc => ?_⟩
      rcases List.mem_append.1 hc with hc | hc
      · exact hgap.2 c hc
      · exact mem_takeWhile_class hc
    have hdot' : ∀ c ∈ text.dropWhile isSpace, isDot c = true := fun c hc => hdot c ((List.dropWhile_suffix _).mem hc)
    obtain ⟨text', rest', htakes⟩ := exists_takes hbefore hword hgap' hblank (leaves_dropWhile text) hdot' hstop'
    have hsame : word ++ (gap ++ text.takeWhile isSpace ++ (text.dropWhile isSpace ++ rest)) = word ++ (gap ++ (text ++ rest)) := by
      rw [List.append_assoc, ← List.append_assoc (text.takeWhile isSpace), List.takeWhile_append_dropWhile]
    rw [hsame] at htakes
    have hagain := htakes.whereClause hfirst
    rw [htext, Option.some.injEq] at hagain
    subst hagain
    exact ⟨_, rest', htakes⟩

theorem whereClause_eq_none_iff : whereClause sqlQuery = none ↔ ¬ wherePattern.Occurs sqlQuery := by
  rw [AreaOfInterest.whereClause, Option.map_eq_none_iff, ← search_isSome]
  simp

end

/-! ## The subscription's clause -/

/-- The rows a predicate lets through; without one, all of them. -/
def keeps (predicate : Option Predicate.Node) (row : Json) : Bool := predicate.all fun p => Predicate.evaluate p row

/-- The snapshot's predicate is the subscription's: on every row, absent only with it, and compiled without an error. -/
structure Agrees (sqlQuery : Bytes) (sub : SqlSubscription) : Prop where
  rows : ∀ row, keeps (predicate sqlQuery) row = keeps sub.predicate row
  present : predicate sqlQuery = none → sub.predicate = none
  compiles : ∀ wc, whereClause sqlQuery = some wc → ∃ node, Predicate.parse wc = .ok node

/-- The subscription's clause in its query, with what stands before its WHERE and behind it. -/
structure IsClause (sqlQuery pre text trail : Bytes) : Prop where
  behind : pre.getLast?.any isWord = false
  split : ∃ word gap, SpelledAs "where" word ∧ IsGap gap ∧ sqlQuery = pre ++ (word ++ (gap ++ (text ++ trail)))
  trimmed : ∀ c ∈ trail, SqlSubscriptionParser.isTrimmed c = true

/-- No place before the clause matches the snapshot's pattern. -/
def IsFirst (sqlQuery pre : Bytes) : Prop := ∀ l t, sqlQuery = l ++ t → l.length < pre.length → ¬ wherePattern.MatchesAt l.reverse t

/-- What the snapshot makes of a query is what the subscription makes of it. -/
inductive Found (sqlQuery : Bytes) (sub : SqlSubscription) : Prop where
  /-- There is no clause, and nothing that the pattern takes for one. -/
  | none (hnone : sub.whereClause = none) (hno : ¬ wherePattern.Occurs sqlQuery)
  /-- Nothing is taken for the clause before it, no line break is behind it, and neither `ORDER BY` nor `LIMIT` stands as a
  word in it, but for its first. -/
  | own {text pre trail : Bytes} (hclause : sub.whereClause = some text) (hown : IsClause sqlQuery pre text trail)
      (hfirst : IsFirst sqlQuery pre) (hline : ∀ c ∈ trail, isDot c = true)
      (hwords : ∀ u v, text ++ trail = u ++ v → u ≠ [] → ¬ Interrupts u v)
  /-- An earlier WHERE is taken for it, and what that has is a clause that lets through the same rows. -/
  | stray {text pre trail l t gap wc rest : Bytes} {node node' : Predicate.Node} (hclause : sub.whereClause = some text)
      (hown : IsClause sqlQuery pre text trail) (hsplit : sqlQuery = l ++ t) (hbefore : l.length < pre.length)
      (hfirst : wherePattern.Misses l t) (htakes : Takes l.reverse t gap wc rest) (hparse : Predicate.parse wc = .ok node)
      (hsub : sub.predicate = some node') (hrows : ∀ row, Predicate.evaluate node row = Predicate.evaluate node' row)

section
variable {sqlQuery pre text trail l t gap gap' wc rest x y : Bytes} {sub : SqlSubscription} {node node' : Predicate.Node}

/-- No word interrupts a text that only spaces follow. -/
theorem not_interrupts_spaces (hy : ∀ c ∈ y, isSpace c = true) : ¬ Interrupts x y := by
  have hno : ∀ {keyword : String} {word rest : Bytes}, SpelledAs keyword word → keyword ∈ patternKeywords → y = word ++ rest → False := by
    intro keyword word rest hword hk hyw
    obtain ⟨c, more, rfl⟩ := List.exists_cons_of_ne_nil (ne_nil_of_spelledAs hword hk)
    have hletter := isWord_of_spelledAs hword hk c List.mem_cons_self
    have hspace := hy c (by rw [hyw]; simp)
    rw [not_isSpace_of_isWord hletter] at hspace
    cases hspace
  rintro ⟨-, ⟨word, gap, word', rest, hyw, hword, -⟩ | ⟨word, rest, hyw, hword, -⟩⟩
  · exact hno hword (by simp [patternKeywords]) hyw
  · exact hno hword (by simp [patternKeywords]) hyw

/-- **A clause that is cut short** at one of the words is no clause. -/
theorem parse_of_interrupts (hint : Interrupts x y) (hall : Predicate.parse (x ++ y) = .ok node) : Predicate.parse x ≠ .ok node' := by
  obtain ⟨hlast, hwords⟩ := hint
  have hlast' : ∀ u a, x = u ++ [a] → isWord a = false := by
    rintro u a rfl
    simpa using hlast
  have hname : ∀ {keyword : String} {word rest : Bytes}, SpelledAs keyword word → keyword ∈ patternKeywords →
      keywordOrIdent (str keyword) = .ident → Leaves isWord rest → y = word ++ rest → Predicate.parse x ≠ .ok node' := by
    rintro keyword word rest hword hk hident hrest rfl
    obtain ⟨c, more, rfl⟩ := List.exists_cons_of_ne_nil (ne_nil_of_spelledAs hword hk)
    have halpha := isAlpha_of_spelledAs hword hk
    have hc := halpha c List.mem_cons_self
    have hsame : keywordOrIdent (c :: more) = keywordOrIdent (str keyword) := by
      have hlower : toLowerAscii (c :: more) = toLowerAscii (str keyword) := hword
      unfold keywordOrIdent
      rw [hlower]
    refine parse_before_name ⟨⟨c, more, rfl, by simp [hc]⟩, fun d hd => ?_, hsame.trans hident⟩ hrest hlast' ⟨c, more, rfl, hc⟩ hall
    simp [isAlnum, halpha d hd]
  rcases hwords with ⟨word, gap, word', rest, hy, hword, hgap, -, -⟩ | ⟨word, rest, hy, hword, hrest⟩
  · exact hname hword (by simp [patternKeywords]) (by decide) (leaves_isWord_gap hgap) hy
  · exact hname hword (by simp [patternKeywords]) (by decide) hrest hy

/-- A text as the subscription parser takes it for a clause. -/
structure IsText (text : Bytes) : Prop where
  dot : ∀ c ∈ text, isDot c = true
  ne_nil : text ≠ []
  starts : Leaves isSpace text

theorem IsText.append (h : IsText text) (trail : Bytes) : Leaves isSpace (text ++ trail) := by
  obtain ⟨c, more, rfl⟩ := List.exists_cons_of_ne_nil h.ne_nil
  rintro x r ⟨⟩
  exact h.starts _ more rfl

/-- What begins a text that begins with no space. -/
theorem leaves_of_append (hne : x ≠ []) (h : Leaves isSpace (x ++ y)) : Leaves isSpace x := by
  rintro c r rfl
  exact h c (r ++ y) rfl

/-- Where the clause is cut or ends, up to which point it is on one line. -/
theorem IsText.dot_of_stops (h : IsText text) (htrail : ∀ c ∈ trail, isSpace c = true) (hne : wc ≠ [])
    (hstart : Leaves isSpace wc) (hdot : ∀ c ∈ wc, isDot c = true) (hstop : rest = [] ∨ Interrupts wc rest)
    (hsplit : text ++ trail = x ++ (wc ++ rest)) : ∀ c ∈ x ++ wc, isDot c = true := by
  rcases hstop with rfl | hint
  · rw [List.append_nil] at hsplit
    rcases List.append_eq_append_iff.1 hsplit with ⟨m, -, hm⟩ | ⟨m, -, hm⟩
    · -- the text that is taken would begin with a space
      obtain ⟨c, more, rfl⟩ := List.exists_cons_of_ne_nil hne
      have hspace := htrail c (by rw [hm]; simp)
      rw [hstart c more rfl] at hspace
      cases hspace
    · intro c hc
      rw [← hsplit, List.mem_append] at hc
      rcases hc with hc | hc
      · exact h.dot c hc
      · exact hdot c (by rw [hm]; exact List.mem_append_right _ hc)
  · rw [← List.append_assoc] at hsplit
    rcases List.append_eq_append_iff.1 hsplit with ⟨m, -, hm⟩ | ⟨m, hm, -⟩
    · exact absurd hint (not_interrupts_spaces fun c hc => htrail c (by rw [hm]; exact List.mem_append_right _ hc))
    · intro c hc
      exact h.dot c (by rw [hm]; exact List.mem_append_left _ hc)

theorem Interrupts.of_append (hne : x ≠ []) (h : Interrupts x y) (front : Bytes) : Interrupts (front ++ x) y := by
  have hlast : (front ++ x).getLast? = x.getLast? := by
    rw [List.getLast?_append, List.getLast?_eq_some_getLast hne, Option.some_or]
  rw [Interrupts, hlast]
  exact h

/-- **The first place is the clause's own** when no earlier one matches: a later match reaches back to it. -/
theorem IsClause.first (hown : IsClause sqlQuery pre text trail) (htext : IsText text) (hfirst : IsFirst sqlQuery pre)
    (hsplit : sqlQuery = l ++ t) (hmisses : wherePattern.Misses l t) (htakes : Takes l.reverse t gap wc rest) :
    wc ++ rest = text ++ trail := by
  obtain ⟨word, gap₀, hword, hgap₀, hquery⟩ := hown.split
  have htrail : ∀ c ∈ trail, isSpace c = true := fun c hc => isSpace_of_isTrimmed (hown.trimmed c hc)
  obtain ⟨word', hword', rfl⟩ := htakes.split
  have hnot : ¬ l.length < pre.length := fun hlt => hfirst l _ hsplit hlt htakes.matchesAt
  rw [hsplit] at hquery
  rcases Nat.eq_or_lt_of_le (Nat.not_lt.1 hnot) with hlen | hlen
  · -- the same place
    obtain ⟨-, htail⟩ := List.append_inj hquery hlen.symm
    obtain ⟨-, htail⟩ := List.append_inj htail ((length_of_where hword').trans (length_of_where hword).symm)
    exact (span_eq htakes.isGap.2 hgap₀.2 (by
      obtain ⟨c, more, rfl⟩ := List.exists_cons_of_ne_nil htakes.ne_nil
      rintro x r ⟨⟩
      exact htakes.starts _ more rfl) (htext.append trail) htail).2
  · -- a later one
    exfalso
    obtain ⟨v, rfl⟩ : ∃ v, l = pre ++ v := by
      rcases List.append_eq_append_iff.1 hquery with ⟨m, hm, -⟩ | ⟨m, hm, -⟩
      · rw [hm, List.length_append] at hlen
        omega
      · exact ⟨m, hm⟩
    rw [List.append_assoc, List.append_cancel_left_eq] at hquery
    have hv : v ≠ [] := by
      rintro rfl
      simp at hlen
    have hparts : (word ++ gap₀) ++ (text ++ trail) = (v ++ (word' ++ gap)) ++ (wc ++ rest) := by
      simp only [List.append_assoc] at hquery ⊢
      exact hquery.symm
    obtain ⟨x, hx⟩ : ∃ x, text ++ trail = x ++ (wc ++ rest) := by
      rcases List.append_eq_append_iff.1 hparts with ⟨m, -, hm⟩ | ⟨m, hm, hm'⟩
      · exact ⟨m, hm⟩
      · -- what is taken would begin within the spaces before the clause
        cases m with
        | nil => exact ⟨[], hm'.symm⟩
        | cons c m =>
          exfalso
          obtain ⟨d, more, rfl⟩ := List.exists_cons_of_ne_nil htakes.ne_nil
          rw [List.cons_append, List.cons_append, List.cons.injEq] at hm'
          have hsuffix : c :: m <:+ gap₀ := by
            have hlong : c :: m <:+ word ++ gap₀ := ⟨v ++ (word' ++ gap), hm.symm⟩
            refine List.suffix_of_suffix_length_le hlong (List.suffix_append word gap₀) ?_
            have hlengths := congrArg List.length hm
            simp only [List.length_append, length_of_where hword, length_of_where hword'] at hlengths
            omega
          have hspace := hgap₀.2 c (hsuffix.mem List.mem_cons_self)
          rw [← hm'.1, htakes.starts d more rfl] at hspace
          cases hspace
    have hdot := htext.dot_of_stops htrail htakes.ne_nil htakes.starts htakes.dot htakes.stops hx
    have hne : x ++ wc ≠ [] := by simp [htakes.ne_nil]
    have hstart : Leaves isSpace (x ++ wc) := by
      refine leaves_of_append (y := rest) hne ?_
      rw [List.append_assoc, ← hx]
      exact htext.append trail
    have hbehind : pre.reverse.head?.any isWord = false := by
      rw [List.head?_reverse]
      exact hown.behind
    have hstop : rest = [] ∨ Interrupts (x ++ wc) rest := htakes.stops.imp_right fun h => h.of_append htakes.ne_nil x
    obtain ⟨text', rest', htakes'⟩ := exists_takes hbehind hword hgap₀ hne hstart hdot hstop
    refine hmisses pre v rfl hv ?_
    have hsame : v ++ (word' ++ (gap ++ (wc ++ rest))) = word ++ (gap₀ ++ (x ++ wc ++ rest)) := by
      rw [hquery, hx, List.append_assoc x]
    rw [hsame]
    exact htakes'.matchesAt

/-- What the subscription parser has made of its clause. -/
theorem parse_clause {query id client : Bytes} (h : SqlSubscriptionParser.parse query id client = some sub) :
    (sub.whereClause = none ∧ sub.predicate = none) ∨
      ∃ text pre trail node, sub.whereClause = some text ∧ IsClause query pre text trail ∧ IsText text ∧
        Predicate.parse text = .ok node ∧ sub.predicate = some node := by
  obtain ⟨t, rest, trail, clause, hquery, hwhere, htrail, -, hclause, hpredicate⟩ := parse_parts h
  cases hwhere with
  | none | blank => exact .inl ⟨hclause, hpredicate⟩
  | @clause gap word gap' text hgap hword hgap' hdot hne hstart =>
    obtain ⟨node, hparse, hnode⟩ := hpredicate
    refine .inr ⟨text, t.front ++ (t.table ++ gap), trail, node, hclause, ⟨?_, ⟨word, gap', hword, hgap', ?_⟩, htrail⟩,
      ⟨hdot, hne, hstart⟩, hparse, hnode⟩
    · have hlast : (t.front ++ (t.table ++ gap)).getLast? = some (gap.getLast hgap.1) := by
        rw [List.getLast?_append, List.getLast?_append, List.getLast?_eq_some_getLast hgap.1, Option.some_or, Option.some_or]
      have hspace := hgap.2 _ (List.getLast_mem hgap.1)
      rw [hlast]
      simpa using not_isWord_of_isSpace hspace
    · rw [hquery]
      simp only [List.append_assoc]

/-- The pattern takes the whole of a clause with no word in it to stop at. -/
theorem IsClause.takes (hown : IsClause sqlQuery pre text trail) (htext : IsText text) (hline : ∀ c ∈ trail, isDot c = true)
    (hwords : ∀ u v, text ++ trail = u ++ v → u ≠ [] → ¬ Interrupts u v) :
    ∃ t gap, sqlQuery = pre ++ t ∧ Takes pre.reverse t gap (text ++ trail) [] := by
  obtain ⟨word, gap, hword, hgap, hquery⟩ := hown.split
  refine ⟨_, gap, hquery, ?_, ⟨word, hword, by rw [List.append_nil]⟩, hgap, by simp [htext.ne_nil], htext.append trail, ?_, .inl rfl, ?_⟩
  · rw [List.head?_reverse]
    exact hown.behind
  · intro c hc
    rcases List.mem_append.1 hc with hc | hc
    · exact htext.dot c hc
    · exact hline c hc
  · intro u v huv hu _ hint
    rw [List.append_nil] at hint
    exact hwords u v huv hu hint

/-- The rows that a predicate lets through do not include what is no row. -/
theorem keeps_null (node : Predicate.Node) : keeps (some node) .null = false := rfl

theorem predicate_of_whereClause (hwc : whereClause sqlQuery = some wc) (hparse : Predicate.parse wc = .ok node) :
    predicate sqlQuery = some node := by
  unfold predicate
  rw [hwc]
  simp only [hparse]

/-- A clause that compiles and lets through the subscription's rows. -/
theorem agrees_of_whereClause (hwc : whereClause sqlQuery = some wc) (hparse : Predicate.parse wc = .ok node')
    (hnode : sub.predicate = some node) (hrows : ∀ row, Predicate.evaluate node' row = Predicate.evaluate node row) :
    Agrees sqlQuery sub := by
  have hpredicate := predicate_of_whereClause hwc hparse
  refine ⟨fun row => ?_, fun habsent => ?_, fun wc' hwc' => ?_⟩
  · rw [hpredicate, hnode]
    exact hrows row
  · rw [hpredicate] at habsent
    cases habsent
  · rw [hwc, Option.some.injEq] at hwc'
    exact ⟨node', hwc' ▸ hparse⟩

/-- A place before the clause that matches is not before the first one. -/
theorem length_lt_of_not_first (hno : ¬ IsFirst sqlQuery pre) (hsplit : sqlQuery = l ++ t) (hmisses : wherePattern.Misses l t) :
    l.length < pre.length := by
  simp only [IsFirst, not_forall, not_not] at hno
  obtain ⟨l', t', hsplit', hlt, hearlier⟩ := hno
  by_contra hge
  obtain ⟨v, rfl⟩ : ∃ v, l = l' ++ v := by
    rcases List.append_eq_append_iff.1 (hsplit.symm.trans hsplit') with ⟨m, hm, -⟩ | ⟨m, hm, -⟩
    · rw [hm, List.length_append] at hlt
      omega
    · exact ⟨m, hm⟩
  have hv : v ≠ [] := by
    rintro rfl
    rw [List.append_nil] at hge
    exact hge hlt
  have htail : t' = v ++ t := by
    rw [hsplit, List.append_assoc] at hsplit'
    exact (List.append_cancel_left hsplit').symm
  exact hmisses l' v rfl hv (htail ▸ hearlier)

/-- What is taken at the clause's own place compiles only when it is all of it. -/
theorem IsClause.found (hown : IsClause sqlQuery pre text trail) (htext : IsText text) (hparse : Predicate.parse text = .ok node)
    (hclause : sub.whereClause = some text) (hfirst : IsFirst sqlQuery pre) (hsplit : sqlQuery = l ++ t)
    (hmisses : wherePattern.Misses l t) (htakes : Takes l.reverse t gap wc rest) (htaken : Predicate.parse wc = .ok node') :
    Found sqlQuery sub := by
  have hsame := hown.first htext hfirst hsplit hmisses htakes
  have hall : Predicate.parse (wc ++ rest) = .ok node := by
    rw [hsame]
    exact parse_append_spaces hparse fun c hc => isSpace_of_isTrimmed (hown.trimmed c hc)
  have hend : rest = [] := by
    rcases htakes.stops with hnil | hint
    · exact hnil
    · exact absurd htaken (parse_of_interrupts hint hall)
  subst hend
  rw [List.append_nil] at hsame
  refine .own hclause hown hfirst (fun c hc => ?_) (fun u v huv hu hint => ?_)
  · exact htakes.dot c (by rw [hsame]; exact List.mem_append_right _ hc)
  · cases v with
    | nil => exact not_interrupts_spaces (by simp) hint
    | cons c v =>
      refine htakes.shortest u (c :: v) (hsame.trans huv) hu (by simp) ?_
      rwa [List.append_nil]

theorem predicate_of_none (hwc : whereClause sqlQuery = none) : predicate sqlQuery = none := by
  unfold predicate
  rw [hwc]

/-- **Where the two agree** the pattern finds no clause for a query without one, and the query's own or a stray one otherwise. -/
theorem Agrees.found {query id client : Bytes} {sub : SqlSubscription} (hsub : SqlSubscriptionParser.parse query id client = some sub)
    (h : Agrees query sub) : Found query sub := by
  obtain ⟨hnone, hpredicate⟩ | ⟨text, pre, trail, node, hclause, hown, htext, hparse, hnode⟩ := parse_clause hsub
  · refine .none hnone fun hoccurs => ?_
    cases hwc : whereClause query with
    | none => exact whereClause_eq_none_iff.1 hwc hoccurs
    | some wc =>
      obtain ⟨node, hparse⟩ := h.compiles wc hwc
      have hrows := h.rows .null
      rw [predicate_of_whereClause hwc hparse, hpredicate, keeps_null] at hrows
      cases hrows
  · cases hwc : whereClause query with
    | none =>
      rw [h.present (predicate_of_none hwc)] at hnode
      cases hnode
    | some wc =>
      obtain ⟨taken, htaken⟩ := h.compiles wc hwc
      obtain ⟨l, t, hsplit, hmisses, ⟨gap, rest, htakes⟩ | hblank⟩ := whereClause_cases hwc
      · by_cases hfirst : IsFirst query pre
        · exact hown.found htext hparse hclause hfirst hsplit hmisses htakes htaken
        · have hbefore := length_lt_of_not_first hfirst hsplit hmisses
          refine .stray hclause hown hsplit hbefore hmisses htakes htaken hnode fun row => ?_
          have hrows := h.rows row
          rw [predicate_of_whereClause hwc htaken, hnode] at hrows
          exact hrows
      · exact absurd htaken (parse_spaces_ne_ok hblank)

theorem Found.agrees {query id client : Bytes} {sub : SqlSubscription} (hsub : SqlSubscriptionParser.parse query id client = some sub)
    (h : Found query sub) : Agrees query sub := by
  obtain ⟨hnone, hpredicate⟩ | ⟨text, pre, trail, node, hclause, hown, htext, hparse, hnode⟩ := parse_clause hsub
  · cases h with
    | none _ hno =>
      have hwc := whereClause_eq_none_iff.2 hno
      refine ⟨fun row => by rw [predicate_of_none hwc, hpredicate], fun _ => hpredicate, fun wc h => ?_⟩
      rw [hwc] at h
      cases h
    | own hclause | stray hclause =>
      rw [hnone] at hclause
      cases hclause
  · cases h with
    | none hnone =>
      rw [hnone] at hclause
      cases hclause
    | @own text' pre' trail' hclause' hown' hfirst hline hwords =>
      rw [hclause, Option.some.injEq] at hclause'
      subst hclause'
      obtain ⟨t, gap, hquery, htakes⟩ := hown'.takes htext hline hwords
      subst hquery
      have hmisses : wherePattern.Misses pre' t := by
        rintro u v rfl hv hat
        refine hfirst u (v ++ t) (by rw [List.append_assoc]) ?_ hat
        have hpos := List.length_pos_iff.2 hv
        rw [List.length_append]
        omega
      have hspaces : ∀ c ∈ trail', isSpace c = true := fun c hc => isSpace_of_isTrimmed (hown'.trimmed c hc)
      exact agrees_of_whereClause (htakes.whereClause hmisses) (parse_append_spaces hparse hspaces) hnode fun row => rfl
    | stray _ _ hsplit _ hmisses htakes hparse' hsub' hrows =>
      rw [hnode, Option.some.injEq] at hsub'
      subst hsub'
      refine agrees_of_whereClause ?_ hparse' hnode hrows
      rw [hsplit]
      exact htakes.whereClause hmisses

/-- **The snapshot filters by the subscription's predicate exactly when** it takes the subscription's clause for it, whole,
or, by chance, one that lets through the same rows. -/
theorem snapshot_predicate_iff (query id client : Bytes) (sub : SqlSubscription)
    (hsub : SqlSubscriptionParser.parse query id client = some sub) : Agrees query sub ↔ Found query sub := by
  constructor
  · intro h
    exact h.found hsub
  · intro h
    exact h.agrees hsub

theorem snapshot_predicate_above : Found (str "SELECT * FROM t WHERE a > 3") aboveThree := by
  have hwc : whereClause (str "SELECT * FROM t WHERE a > 3") = some (str "a > 3") := by decide
  have hpredicate : predicate (str "SELECT * FROM t WHERE a > 3") = aboveThree.predicate := predicate_of_whereClause hwc rfl
  refine (snapshot_predicate_iff (str "SELECT * FROM t WHERE a > 3") (str "sql_sub_1") (str "c") aboveThree rfl).1 ⟨?_, ?_, ?_⟩
  · intro row
    rw [hpredicate]
  · intro habsent
    rw [hpredicate] at habsent
    cases habsent
  · intro wc hwc'
    rw [hwc, Option.some.injEq] at hwc'
    subst hwc'
    exact ⟨_, rfl⟩

/-- The clause is cut short within a string, and every row is sent. -/
theorem snapshot_cuts_string : ∃ sub, SqlSubscriptionParser.parse (str "SELECT * FROM t WHERE name = 'speed limit'") (str "sql_sub_1")
      (str "c") = some sub ∧ ¬ Agrees (str "SELECT * FROM t WHERE name = 'speed limit'") sub := by
  have hsub : ∃ sub, SqlSubscriptionParser.parse (str "SELECT * FROM t WHERE name = 'speed limit'") (str "sql_sub_1") (str "c") =
      some sub ∧ sub.predicate.isSome = true := ⟨_, rfl, rfl⟩
  obtain ⟨sub, hparse, hsome⟩ := hsub
  refine ⟨sub, hparse, fun h => ?_⟩
  have hwc : whereClause (str "SELECT * FROM t WHERE name = 'speed limit'") = some (str "name = 'speed ") := by decide
  obtain ⟨node, hnode⟩ := h.compiles _ hwc
  have herror : ∃ e, Predicate.parse (str "name = 'speed ") = .error e := ⟨_, rfl⟩
  obtain ⟨e, herror⟩ := herror
  rw [herror] at hnode
  cases hnode

end

end AreaOfInterest

end OriginDB
