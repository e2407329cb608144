import OriginDB.Changefeed.SelectText
/-!
# The table a snapshot reads (`sql_engine.cpp:418-425`, `sql_subscription.cpp:173-184`)

The SQL parser's pattern for a SELECT is greedy, so the table of the statement is the name behind the last FROM it can
reach in the text. The subscription's is the one behind its own FROM.
-/
namespace OriginDB

open JsonDoc ByteCodec Regex

namespace SelectText

/-- Everything before the word FROM. -/
def beforeFrom (t : SelectText) : Bytes := t.lead ++ (t.select ++ (t.gap₁ ++ (t.columns ++ t.gap₂)))

/-- The query begins so, and the name ends where it does. -/
def Reads (t : SelectText) (query : Bytes) : Prop := ∃ rest, query = t.front ++ (t.table ++ rest) ∧ Leaves isWord rest

/-- Of all the ways to read a SELECT from a name, the one with its FROM furthest on. -/
def IsLast (t : SelectText) (query : Bytes) : Prop :=
  t.Reads query ∧ ∀ t' : SelectText, t'.Reads query → t'.beforeFrom.length ≤ t.beforeFrom.length

theorem front_eq (t : SelectText) : t.front = t.beforeFrom ++ (t.word ++ t.gap₃) := by
  simp only [front, beforeFrom, List.append_assoc]

end SelectText

/-! ## Upper case -/

section
variable {w a b : Bytes}

theorem upper_append (a b : Bytes) : SqlParser.upper (a ++ b) = SqlParser.upper a ++ SqlParser.upper b := List.map_append

theorem length_upper (w : Bytes) : (SqlParser.upper w).length = w.length := List.length_map _

/-- A keyword in any case, and in upper case. -/
theorem spelledAs_iff_upper {keyword : String} {capitals : Bytes} (hlower : capitals.map toLower = (str keyword).map toLower)
    (hupper : (str keyword).map toUpper = capitals) : SpelledAs keyword w ↔ SqlParser.upper w = capitals := by
  have hcollapse : ∀ s : Bytes, (s.map toLower).map toUpper = s.map toUpper := by
    intro s
    rw [List.map_map]
    exact List.map_congr_left fun c _ => toUpper_toLower c
  have hcollapse' : ∀ s : Bytes, (s.map toUpper).map toLower = s.map toLower := by
    intro s
    rw [List.map_map]
    exact List.map_congr_left fun c _ => toLower_toUpper c
  constructor
  · intro h
    rw [SqlParser.upper, ← hcollapse w, h, hcollapse, hupper]
  · intro h
    rw [SpelledAs, ← hcollapse' w, ← SqlParser.upper, h, hlower]

theorem spelledAs_select : SpelledAs "select" w ↔ SqlParser.upper w = str "SELECT" := spelledAs_iff_upper (by decide) (by decide)

theorem spelledAs_from : SpelledAs "from" w ↔ SqlParser.upper w = str "FROM" := spelledAs_iff_upper (by decide) (by decide)

theorem isGap_upper : IsGap (SqlParser.upper w) ↔ IsGap w := by
  simp [IsGap, SqlParser.upper, isSpace_toUpper]

theorem dot_upper : (∀ c ∈ SqlParser.upper w, isDot c = true) ↔ ∀ c ∈ w, isDot c = true := by
  simp [SqlParser.upper, isDot_toUpper]

theorem isName_upper : IsName (SqlParser.upper w) ↔ IsName w := by
  constructor
  · intro h
    refine ⟨fun hw => h.ne_nil (by rw [hw]; rfl), fun c hc => ?_⟩
    rw [← isWord_toUpper]
    exact h.word _ (List.mem_map_of_mem hc)
  · exact IsName.upper

theorem leaves_upper : Leaves isWord (SqlParser.upper w) ↔ Leaves isWord w := by
  cases w with
  | nil => exact iff_of_true leaves_nil leaves_nil
  | cons c w =>
    constructor
    · rintro h x r ⟨⟩
      rw [← isWord_toUpper]
      exact h (toUpper c) (w.map toUpper) rfl
    · rintro h x r ⟨⟩
      rw [isWord_toUpper]
      exact h c w rfl

end

/-! ## The last FROM -/

section
variable {before gap gap' name rest x x' g g' h h' : Bytes}

theorem matchesAt_fromName (hgap : IsGap gap) (hgap' : IsGap gap') (hname : IsName name) :
    fromName.MatchesAt before (gap ++ (str "FROM" ++ (gap' ++ (name ++ rest)))) := by
  refine ⟨gap ++ (str "FROM" ++ (gap' ++ name)), rest, by simp only [List.append_assoc], gap, _, rfl, matches_plus.2 hgap,
    str "FROM", _, rfl, matches_lit.2 rfl, gap', name, rfl, matches_plus.2 hgap', ?_⟩
  exact matches_plus.2 ⟨hname.ne_nil, hname.word⟩

theorem matchesAt_many_seq {p : UInt8 → Bool} {b : Regex.Pattern} (hx : ∀ c ∈ x, p c = true) (hb : b.MatchesAt (x.reverse ++ before) rest) :
    (Pattern.seq (.many true p) b).MatchesAt before (x ++ rest) := by
  obtain ⟨w, r, rfl, hm⟩ := hb
  exact ⟨x ++ w, r, by rw [List.append_assoc], x, w, rfl, hx, hm⟩

/-- Spaces do not run on over what begins with none. -/
theorem length_gap_le {front : Bytes} (hgap : ∀ c ∈ g', isSpace c = true) (hh : Leaves isSpace h) (heq : g' ++ h' = front ++ h) :
    g'.length ≤ front.length := by
  rcases List.append_eq_append_iff.1 heq with ⟨m, hm, -⟩ | ⟨m, hm, hm'⟩
  · rw [hm, List.length_append]
    omega
  · cases m with
    | nil => rw [hm, List.append_nil]
    | cons c m =>
      have hspace := hgap c (by rw [hm]; simp)
      rw [hh c (m ++ h') hm'] at hspace
      cases hspace

/-- **No FROM is reached behind the one the engine takes**: `g`, `x` and `gap` are what its three repetitions have before it. -/
theorem last_from (heq : g ++ (x ++ (gap ++ h)) = g' ++ (x' ++ (gap' ++ h'))) (hg' : ∀ c ∈ g', isSpace c = true)
    (hx' : ∀ c ∈ x', isDot c = true) (hgap' : ∀ c ∈ gap', isSpace c = true) (hh : Leaves isSpace h)
    (hmatch : ∀ before, fromName.MatchesAt before (gap' ++ h'))
    (hlong : Longest isSpace (.seq (.many true isDot) fromName) before (x ++ (gap ++ h)))
    (hlong' : Longest isDot fromName rest (gap ++ h)) : (g' ++ (x' ++ gap')).length ≤ (g ++ (x ++ gap)).length := by
  -- the spaces behind SELECT are the most there can be
  obtain ⟨v, rfl, hv⟩ : ∃ v, g = g' ++ v ∧ x' ++ (gap' ++ h') = v ++ (x ++ (gap ++ h)) := by
    rcases List.append_eq_append_iff.1 heq with ⟨m, hm, hm'⟩ | ⟨m, hm, hm'⟩
    · cases m with
      | nil => exact ⟨[], by simpa using hm.symm, by simpa using hm'.symm⟩
      | cons c m =>
        refine absurd (matchesAt_many_seq hx' (hmatch _)) (hlong (c :: m) _ (by simp) (fun y hy => hg' y ?_) hm')
        rw [hm]
        exact List.mem_append_right _ hy
    · exact ⟨m, hm, hm'⟩
  rw [← List.append_assoc v] at hv
  have hshort : ∀ u, gap' ++ h' = u ++ (gap ++ h) → gap'.length ≤ u.length + gap.length := by
    intro u hu
    rw [← List.append_assoc u] at hu
    have hle := length_gap_le hgap' hh hu
    rwa [List.length_append] at hle
  simp only [List.length_append]
  rcases List.append_eq_append_iff.1 hv with ⟨u, hu, hu'⟩ | ⟨u, hu, hu'⟩
  · have hlengths := congrArg List.length hu
    have hle := hshort u hu'
    simp only [List.length_append] at hlengths
    omega
  · cases u with
    | nil =>
      have hlengths := congrArg List.length hu
      have hle := hshort [] hu'.symm
      simp only [List.length_append, List.length_nil] at hlengths hle
      omega
    | cons c u =>
      -- what is taken for the columns would be longer
      refine absurd (hmatch _) (hlong' (c :: u) _ (by simp) (fun y hy => hx' y ?_) hu')
      rw [hu]
      exact List.mem_append_right _ hy

open Pattern in
/-- What the engine takes for a SELECT. -/
theorem select_parts {s : Bytes} {d : Cursor} (hd : (run SqlParser.selectPattern ⟨before, s, []⟩).head? = some d) :
    ∃ g x gap gap' name rest, s = str "SELECT" ++ (g ++ (x ++ (gap ++ (str "FROM" ++ (gap' ++ (name ++ rest)))))) ∧
      IsGap g ∧ (∀ c ∈ x, isDot c = true) ∧ IsGap gap ∧ IsGap gap' ∧ IsName name ∧ Leaves isWord rest ∧
      (∃ b, Longest isSpace (.seq (.many true isDot) fromName) b (x ++ (gap ++ (str "FROM" ++ (gap' ++ (name ++ rest)))))) ∧
      (∃ b, Longest isDot fromName b (gap ++ (str "FROM" ++ (gap' ++ (name ++ rest))))) ∧
      d.groups.lookup 1 =
        some (before.length + (6 + (g.length + (x.length + (gap.length + (4 + gap'.length))))), name.length) := by
  obtain ⟨s₁, rfl, hd₁⟩ := head?_lit_seq hd
  obtain ⟨g, s₂, hg, rfl, hgSpace, hd₂, hlong⟩ := longest_of_plus hd₁
  obtain ⟨x, s₃, rfl, hx, hd₃, hlong'⟩ := longest_of_greedy hd₂
  obtain ⟨gap, s₄, hgap, rfl, hgapSpace, hd₄, -⟩ := longest_of_plus hd₃
  obtain ⟨s₅, rfl, hd₅⟩ := head?_lit_seq hd₄
  obtain ⟨gap', s₆, hgap', rfl, hgapSpace', hd₆, -⟩ := longest_of_plus hd₅
  -- the name is all that is left of word characters
  obtain ⟨w, hw, -, hword⟩ := mem_run (mem_of_head? hd₆)
  have hsplit : s₆ = s₆.takeWhile isWord ++ s₆.dropWhile isWord := List.takeWhile_append_dropWhile.symm
  have hname : IsName (s₆.takeWhile isWord) := by
    refine ⟨?_, fun c hc => mem_takeWhile_class hc⟩
    obtain ⟨hne, hall⟩ := matches_plus.1 (hword : (plus true isWord).Matches _ _ _)
    obtain ⟨c, w, rfl⟩ := List.exists_cons_of_ne_nil hne
    simp only at hw
    rw [hw, List.cons_append, List.takeWhile_cons_of_pos (hall c List.mem_cons_self)]
    simp
  generalize s₆.takeWhile isWord = name at hname hsplit
  have hrest : Leaves isWord (s₆.dropWhile isWord) := leaves_dropWhile s₆
  generalize s₆.dropWhile isWord = rest at hrest hsplit
  subst hsplit
  have hsame := hd₆.symm.trans (head?_run_group (head?_run_plus hname.ne_nil hname.word hrest))
  rw [Option.some.injEq] at hsame
  refine ⟨g, x, gap, gap', name, rest, rfl, ⟨hg, hgSpace⟩, hx, ⟨hgap, hgapSpace⟩, ⟨hgap', hgapSpace'⟩, hname, hrest, ⟨_, hlong⟩,
    ⟨_, hlong'⟩, ?_⟩
  rw [hsame, List.lookup_cons_self]
  have hfrom : (str "FROM").length = 4 := rfl
  have hselect : (str "SELECT").length = 6 := rfl
  simp only [List.length_append, List.length_reverse, hfrom, hselect, Option.some.injEq, Prod.mk.injEq]
  omega

end

/-! ## The statement's table -/

section
variable {query : Bytes} {t : SelectText} {m : Match}

/-- A reading of the query is one of its upper-case copy. -/
theorem SelectText.Reads.upper (h : t.Reads query) : ∃ rest, SqlParser.upper query =
    SqlParser.upper t.lead ++ (str "SELECT" ++ (SqlParser.upper t.gap₁ ++ (SqlParser.upper t.columns ++
      (SqlParser.upper t.gap₂ ++ (str "FROM" ++ (SqlParser.upper t.gap₃ ++ (SqlParser.upper t.table ++ rest))))))) := by
  obtain ⟨rest, rfl, -⟩ := h
  refine ⟨SqlParser.upper rest, ?_⟩
  simp only [SelectText.front, upper_append, List.append_assoc, spelledAs_select.1 t.select_spelled, spelledAs_from.1 t.word_spelled]

theorem SelectText.spaces_lead (t : SelectText) : ∀ c ∈ SqlParser.upper t.lead, isSpace c = true := by
  intro c hc
  obtain ⟨x, hx, rfl⟩ := List.mem_map.1 hc
  rw [isSpace_toUpper]
  exact isSpace_of_isTrimmed (t.lead_trimmed x hx)

theorem leaves_select (s : Bytes) : Leaves isSpace (str "SELECT" ++ s) := by
  rintro c r ⟨⟩
  rfl

theorem leaves_from (s : Bytes) : Leaves isSpace (str "FROM" ++ s) := by
  rintro c r ⟨⟩
  rfl

/-- The pattern matches where the reading begins. -/
theorem SelectText.Reads.matchesAt (h : t.Reads query) : ∃ s, SqlParser.upper query = SqlParser.upper t.lead ++ s ∧
    SqlParser.selectPattern.MatchesAt (SqlParser.upper t.lead).reverse s := by
  obtain ⟨rest, hall⟩ := h.upper
  refine ⟨_, hall, ?_⟩
  have hfrom : fromName.MatchesAt ((SqlParser.upper t.columns).reverse ++ ((SqlParser.upper t.gap₁).reverse ++
      ((str "SELECT").reverse ++ (SqlParser.upper t.lead).reverse))) (SqlParser.upper t.gap₂ ++ (str "FROM" ++
        (SqlParser.upper t.gap₃ ++ (SqlParser.upper t.table ++ rest)))) :=
    matchesAt_fromName (isGap_upper.2 t.gap₂_isGap) (isGap_upper.2 t.gap₃_isGap) (isName_upper.2 t.isName)
  obtain ⟨w, r, hs, hm⟩ := matchesAt_many_seq (dot_upper.2 t.columns_dot) hfrom
  refine ⟨str "SELECT" ++ (SqlParser.upper t.gap₁ ++ w), r, by rw [hs]; simp only [List.append_assoc], str "SELECT", _, rfl,
    matches_lit.2 rfl, SqlParser.upper t.gap₁, w, rfl, matches_plus.2 (isGap_upper.2 t.gap₁_isGap), hm⟩

theorem SelectText.length_select (t : SelectText) : t.select.length = 6 := by
  rw [← length_upper, spelledAs_select.1 t.select_spelled]
  rfl

theorem SelectText.length_word (t : SelectText) : t.word.length = 4 := by
  rw [← length_upper, spelledAs_from.1 t.word_spelled]
  rfl

section
variable {l s g x gap gap' name rest : Bytes}

/-- The first place where the pattern matches is behind spaces only. -/
theorem spaces_of_first (hreads : t.Reads query) (hls : SqlParser.upper query = l ++ s) (hmisses : SqlParser.selectPattern.Misses l s) :
    ∀ c ∈ l, isSpace c = true := by
  obtain ⟨s', hs', hat'⟩ := hreads.matchesAt
  rcases List.append_eq_append_iff.1 (hls.symm.trans hs') with ⟨v, hv, -⟩ | ⟨v, hv, hv'⟩
  · intro c hc
    exact t.spaces_lead c (by rw [hv]; exact List.mem_append_left _ hc)
  · cases v with
    | nil =>
      rw [List.append_nil] at hv
      rw [hv]
      exact t.spaces_lead
    | cons c v => exact absurd (hv' ▸ hat') (hmisses _ (c :: v) hv (by simp))

/-- There is a reading of the query for the pieces of its copy. -/
theorem exists_of_upper (h : SqlParser.upper query =
      l ++ (str "SELECT" ++ (g ++ (x ++ (gap ++ (str "FROM" ++ (gap' ++ (name ++ rest))))))))
    (hl : ∀ c ∈ query.take l.length, SqlSubscriptionParser.isTrimmed c = true) (hg : IsGap g) (hx : ∀ c ∈ x, isDot c = true)
    (hgap : IsGap gap) (hgap' : IsGap gap') (hname : IsName name) (hrest : Leaves isWord rest) :
    ∃ t : SelectText, t.Reads query ∧ SqlParser.upper t.lead = l ∧ SqlParser.upper t.gap₁ = g ∧ SqlParser.upper t.columns = x ∧
      SqlParser.upper t.gap₂ = gap ∧ SqlParser.upper t.gap₃ = gap' ∧ SqlParser.upper t.table = name := by
  obtain ⟨lead, q₁, rfl, rfl, hq₁⟩ := List.map_eq_append_iff.1 h
  obtain ⟨select, q₂, rfl, hselect, hq₂⟩ := List.map_eq_append_iff.1 hq₁
  obtain ⟨g₀, q₃, rfl, rfl, hq₃⟩ := List.map_eq_append_iff.1 hq₂
  obtain ⟨x₀, q₄, rfl, rfl, hq₄⟩ := List.map_eq_append_iff.1 hq₃
  obtain ⟨gap₀, q₅, rfl, rfl, hq₅⟩ := List.map_eq_append_iff.1 hq₄
  obtain ⟨word, q₆, rfl, hword, hq₆⟩ := List.map_eq_append_iff.1 hq₅
  obtain ⟨gap₀', q₇, rfl, rfl, hq₇⟩ := List.map_eq_append_iff.1 hq₆
  obtain ⟨name₀, rest₀, rfl, rfl, rfl⟩ := List.map_eq_append_iff.1 hq₇
  rw [List.length_map, List.take_left] at hl
  refine ⟨⟨lead, select, g₀, x₀, gap₀, word, gap₀', name₀, hl, spelledAs_select.2 hselect, isGap_upper.1 hg, dot_upper.1 hx,
    isGap_upper.1 hgap, spelledAs_from.2 hword, isGap_upper.1 hgap', isName_upper.1 hname⟩, ⟨rest₀, ?_, leaves_upper.1 hrest⟩,
    rfl, rfl, rfl, rfl, rfl, rfl⟩
  simp only [SelectText.front, List.append_assoc]

/-- Every reading begins at that place. -/
theorem SelectText.Reads.split (hreads : t.Reads query) (hl : ∀ c ∈ l, isSpace c = true)
    (h : SqlParser.upper query = l ++ (str "SELECT" ++ s)) : SqlParser.upper t.lead = l ∧ ∃ rest, s =
      SqlParser.upper t.gap₁ ++ (SqlParser.upper t.columns ++ (SqlParser.upper t.gap₂ ++
        (str "FROM" ++ (SqlParser.upper t.gap₃ ++ (SqlParser.upper t.table ++ rest))))) := by
  obtain ⟨rest, hall⟩ := hreads.upper
  obtain ⟨hsame, htail⟩ := span_eq hl t.spaces_lead (leaves_select _) (leaves_select _) (h.symm.trans hall)
  exact ⟨hsame.symm, rest, List.append_cancel_left htail⟩

end

/-- **The SQL parser takes the last reading.** -/
theorem exists_last (hreads : t.Reads query) (hm : search SqlParser.selectPattern (SqlParser.upper query) = some m) :
    ∃ t' : SelectText, t'.IsLast query ∧ m.str 1 query = t'.table := by
  obtain ⟨l, s, hls, hmisses, hat⟩ := exists_first (search_isSome.1 (by rw [hm]; rfl))
  obtain ⟨d, hd⟩ := exists_head?_run (c := ⟨l.reverse, s, []⟩) hat
  rw [hls, search_of_first hmisses hd, Option.some.injEq] at hm
  obtain ⟨g, x, gap, gap', name, rest, rfl, hg, hx, hgap, hgap', hname, hrest, ⟨_, hlong⟩, ⟨_, hlong'⟩, hgroup⟩ := select_parts hd
  have hl := spaces_of_first hreads hls hmisses
  have htrimmed : ∀ c ∈ query.take l.length, SqlSubscriptionParser.isTrimmed c = true := by
    obtain ⟨hlead, -⟩ := hreads.split hl hls
    obtain ⟨rest, hquery, -⟩ := hreads
    rw [hquery, SelectText.front, List.append_assoc, ← hlead, length_upper, List.take_left]
    exact t.lead_trimmed
  obtain ⟨t', hreads', hlead', rfl, rfl, rfl, rfl, rfl⟩ := exists_of_upper hls htrimmed hg hx hgap hgap' hname hrest
  have hlengthLead : l.length = t'.lead.length := by rw [← hlead', length_upper]
  refine ⟨t', ⟨hreads', fun t'' ht'' => ?_⟩, ?_⟩
  · obtain ⟨hsame, rest'', heq⟩ := ht''.split hl hls
    have hle := last_from heq (isGap_upper.2 t''.gap₁_isGap).2 (dot_upper.2 t''.columns_dot) (isGap_upper.2 t''.gap₂_isGap).2
      (leaves_from _) (fun _ => matchesAt_fromName (isGap_upper.2 t''.gap₂_isGap) (isGap_upper.2 t''.gap₃_isGap) (isName_upper.2 t''.isName))
      hlong hlong'
    have hlead'' : t''.lead.length = t'.lead.length := by rw [← length_upper t''.lead, hsame, hlengthLead]
    simp only [List.length_append, length_upper] at hle
    simp only [SelectText.beforeFrom, List.length_append, hlead'', SelectText.length_select]
    omega
  · obtain ⟨rest₀, hquery, -⟩ := hreads'
    refine str_of_lookup t'.front rest₀ ?_ hquery
    rw [← hm]
    simp only [hgroup, List.length_reverse, length_upper, SelectText.front, List.length_append, SelectText.length_select,
      SelectText.length_word, hlengthLead]

/-- There is one last reading only. -/
theorem SelectText.IsLast.table_eq {t' : SelectText} (h : t.IsLast query) (h' : t'.IsLast query) : t.table = t'.table := by
  have hlength : t.beforeFrom.length = t'.beforeFrom.length := Nat.le_antisymm (h'.2 t h.1) (h.2 t' h'.1)
  obtain ⟨rest, hquery, hrest⟩ := h.1
  obtain ⟨rest', hquery', hrest'⟩ := h'.1
  rw [hquery, SelectText.front_eq, SelectText.front_eq, List.append_assoc, List.append_assoc, List.append_assoc, List.append_assoc] at hquery'
  obtain ⟨-, htail⟩ := List.append_inj hquery' hlength
  have hwords : t.word.length = t'.word.length := by rw [t.length_word, t'.length_word]
  obtain ⟨-, htail⟩ := List.append_inj htail hwords
  have hname : ∀ (t : SelectText) (s : Bytes), Leaves isSpace (t.table ++ s) := by
    intro t s
    obtain ⟨x, more, hcons, hx⟩ := t.isName.head
    rw [hcons]
    rintro c r ⟨⟩
    exact hx
  obtain ⟨-, htail⟩ := span_eq t.gap₃_isGap.2 t'.gap₃_isGap.2 (hname t rest) (hname t' rest') htail
  exact (span_eq t.isName.word t'.isName.word hrest hrest' htail).1

/-- The subscription's own FROM gives a reading. -/
theorem exists_reading {id client : Bytes} {sub : SqlSubscription} (h : SqlSubscriptionParser.parse query id client = some sub) :
    ∃ t : SelectText, t.Reads query := by
  obtain ⟨t, rest, trail, clause, hquery, hwhere, htrail, -⟩ := parse_parts h
  refine ⟨t, rest ++ trail, hquery, ?_⟩
  cases hwhere with
  | none =>
    rw [List.nil_append]
    cases trail with
    | nil => exact leaves_nil
    | cons c trail =>
      rw [← List.append_nil (c :: trail)]
      exact leaves_isWord_gap ⟨by simp, fun x hx => isSpace_of_isTrimmed (htrail x hx)⟩
  | blank hgap | clause hgap =>
    rw [List.append_assoc]
    exact leaves_isWord_gap hgap

/-- Every SELECT is from a name. -/
theorem isName_of_search (hm : search SqlParser.selectPattern (SqlParser.upper query) = some m) : IsName (m.str 1 query) := by
  obtain ⟨l, s, hls, hmisses, hat⟩ := exists_first (search_isSome.1 (by rw [hm]; rfl))
  obtain ⟨d, hd⟩ := exists_head?_run (c := ⟨l.reverse, s, []⟩) hat
  rw [hls, search_of_first hmisses hd, Option.some.injEq] at hm
  obtain ⟨g, x, gap, gap', name, rest, rfl, -, -, -, -, hname, -, -, -, hgroup⟩ := select_parts hd
  -- the name in upper case is the same piece of the upper-case copy
  have hcopy : SqlParser.upper (m.str 1 query) = m.str 1 (SqlParser.upper query) := by
    rw [← hm]
    simp only [Match.str, hgroup, SqlParser.upper, List.map_take, List.map_drop]
  have hpiece : m.str 1 (SqlParser.upper query) = name := by
    refine str_of_lookup (l ++ (str "SELECT" ++ (g ++ (x ++ (gap ++ (str "FROM" ++ gap')))))) rest ?_ (by rw [hls]; simp only [List.append_assoc])
    rw [← hm]
    have hfrom : (str "FROM").length = 4 := rfl
    have hselect : (str "SELECT").length = 6 := rfl
    simp only [hgroup, List.length_reverse, List.length_append, hfrom, hselect]
  rw [← isName_upper, hcopy, hpiece]
  exact hname

theorem search_of_select {stmt : SqlStatement} (h : SqlParser.parse query = some stmt) (hselect : stmt.type = .select) :
    ∃ m, search SqlParser.selectPattern (SqlParser.upper query) = some m ∧ stmt.tableName = m.str 1 query := by
  unfold SqlParser.parse at h
  split at h
  · cases h
    cases hselect
  · split at h
    · cases h
      cases hselect
    · split at h
      · rename_i m hm
        cases h
        exact ⟨m, hm, rfl⟩
      · split at h
        · cases h
          cases hselect
        · cases h

/-- **The snapshot reads the subscribed table exactly when** the last FROM that a SELECT of the text can be read to names it. -/
theorem snapshot_table_iff (query id client : Bytes) (sub : SqlSubscription) (stmt : SqlStatement)
    (hsub : SqlSubscriptionParser.parse query id client = some sub) (hstmt : SqlParser.parse query = some stmt)
    (hselect : stmt.type = .select) :
    stmt.tableName = sub.tableName ↔ ∃ t : SelectText, t.IsLast query ∧ t.table = sub.tableName := by
  obtain ⟨t, hreads⟩ := exists_reading hsub
  obtain ⟨m, hm, htable⟩ := search_of_select hstmt hselect
  obtain ⟨t', hlast, hname⟩ := exists_last hreads hm
  rw [htable, hname]
  constructor
  · intro h
    exact ⟨t', hlast, h⟩
  · rintro ⟨t'', hlast'', h⟩
    rw [hlast.table_eq hlast'', h]

theorem snapshot_table_plain : ∃ t : SelectText, t.IsLast (str "SELECT * FROM t WHERE a > 3") ∧ t.table = str "t" := by
  have hstmt : SqlParser.parse (str "SELECT * FROM t WHERE a > 3") =
      some { type := .select, tableName := str "t", rawSql := str "SELECT * FROM t WHERE a > 3" } := by decide
  exact (snapshot_table_iff (str "SELECT * FROM t WHERE a > 3") (str "sql_sub_1") (str "c") aboveThree _ rfl hstmt rfl).1 rfl

/-- A FROM within a string is taken for the query's. -/
theorem snapshot_table_in_string : ∃ sub stmt, SqlSubscriptionParser.parse (str "SELECT * FROM t WHERE name = 'far from home'")
      (str "sql_sub_1") (str "c") = some sub ∧ SqlParser.parse (str "SELECT * FROM t WHERE name = 'far from home'") = some stmt ∧
    stmt.type = .select ∧ sub.tableName = str "t" ∧ stmt.tableName = str "home" := by
  have hsub : ∃ sub, SqlSubscriptionParser.parse (str "SELECT * FROM t WHERE name = 'far from home'") (str "sql_sub_1") (str "c") =
      some sub ∧ sub.tableName = str "t" := ⟨_, rfl, rfl⟩
  have hstmt : SqlParser.parse (str "SELECT * FROM t WHERE name = 'far from home'") =
      some { type := .select, tableName := str "home", rawSql := str "SELECT * FROM t WHERE name = 'far from home'" } := by
    decide
  obtain ⟨sub, hparse, htable⟩ := hsub
  exact ⟨sub, _, hparse, hstmt, rfl, htable, rfl⟩

end

end OriginDB
