import Mathlib.Data.List.TakeWhile
import OriginDB.Sql.SelectAll
/-!
# The text of a subscription (`src/changefeed/sql_subscription.cpp:156-206`)

What a query is made of that the subscription parser accepts, and what the parser takes out of it: the table's name and
the text of the WHERE clause (`parse_parts`).
-/
namespace OriginDB

open JsonDoc ByteCodec Regex

/-- Spaces, at least one. -/
def IsGap (s : Bytes) : Prop := s ≠ [] ∧ ∀ c ∈ s, isSpace c = true

/-- A keyword in upper or lower case. -/
def SpelledAs (keyword : String) (word : Bytes) : Prop := word.map toLower = (str keyword).map toLower

/-- The text up to the table's name and the spaces around it. -/
structure SelectText where
  lead : Bytes
  select : Bytes
  gap₁ : Bytes
  columns : Bytes
  gap₂ : Bytes
  word : Bytes
  gap₃ : Bytes
  table : Bytes
  lead_trimmed : ∀ c ∈ lead, SqlSubscriptionParser.isTrimmed c = true
  select_spelled : SpelledAs "select" select
  gap₁_isGap : IsGap gap₁
  columns_dot : ∀ c ∈ columns, isDot c = true
  gap₂_isGap : IsGap gap₂
  word_spelled : SpelledAs "from" word
  gap₃_isGap : IsGap gap₃
  isName : IsName table

/-- Everything before the table's name. -/
def SelectText.front (t : SelectText) : Bytes :=
  t.lead ++ (t.select ++ (t.gap₁ ++ (t.columns ++ (t.gap₂ ++ (t.word ++ t.gap₃)))))

/-- What stands behind the table's name, up to the last byte that is no space, and the clause in it. -/
inductive WhereText : Bytes → Option Bytes → Prop where
  | none : WhereText [] none
  | blank {gap word gap' : Bytes} (hgap : IsGap gap) (hword : SpelledAs "where" word) (hgap' : IsGap gap') :
      WhereText (gap ++ (word ++ gap')) none
  | clause {gap word gap' text : Bytes} (hgap : IsGap gap) (hword : SpelledAs "where" word) (hgap' : IsGap gap')
      (hdot : ∀ c ∈ text, isDot c = true) (hne : text ≠ []) (hstart : Leaves isSpace text) :
      WhereText (gap ++ (word ++ (gap' ++ text))) (some text)

/-! ## Trimming -/

/-- A trimmed text neither begins nor ends with what is trimmed off. -/
theorem trim_spec (s : Bytes) : ∃ lead trail, s = lead ++ (SqlSubscriptionParser.trim s ++ trail) ∧
    (∀ c ∈ lead, SqlSubscriptionParser.isTrimmed c = true) ∧ (∀ c ∈ trail, SqlSubscriptionParser.isTrimmed c = true) ∧
    Leaves SqlSubscriptionParser.isTrimmed (SqlSubscriptionParser.trim s).reverse := by
  let p := SqlSubscriptionParser.isTrimmed
  refine ⟨s.takeWhile p, ((s.dropWhile p).reverse.takeWhile p).reverse, ?_, fun c hc => mem_takeWhile_class hc, ?_, ?_⟩
  · have hback : SqlSubscriptionParser.trim s ++ ((s.dropWhile p).reverse.takeWhile p).reverse = s.dropWhile p := by
      rw [SqlSubscriptionParser.trim, ← List.reverse_append, List.takeWhile_append_dropWhile, List.reverse_reverse]
    rw [hback, List.takeWhile_append_dropWhile]
  · intro c hc
    exact mem_takeWhile_class (List.mem_reverse.1 hc)
  · rw [SqlSubscriptionParser.trim, List.reverse_reverse]
    exact leaves_dropWhile _

theorem trim_eq_self {s : Bytes} (hstart : Leaves SqlSubscriptionParser.isTrimmed s)
    (hend : Leaves SqlSubscriptionParser.isTrimmed s.reverse) : SqlSubscriptionParser.trim s = s := by
  have hdrop : ∀ {s : Bytes}, Leaves SqlSubscriptionParser.isTrimmed s → s.dropWhile SqlSubscriptionParser.isTrimmed = s := by
    intro s hs
    cases s with
    | nil => rfl
    | cons c s => exact List.dropWhile_cons_of_neg (by simp [hs c s rfl])
  rw [SqlSubscriptionParser.trim, hdrop hstart, hdrop hend, List.reverse_reverse]

/-- A word does not go on into spaces. -/
theorem leaves_isWord_gap {gap rest : Bytes} (h : IsGap gap) : Leaves isWord (gap ++ rest) := by
  obtain ⟨c, more, rfl⟩ := List.exists_cons_of_ne_nil h.1
  rintro x r ⟨⟩
  exact not_isWord_of_isSpace (h.2 c List.mem_cons_self)

/-! ## The parts -/

section Parts
variable {n : Bytes} {c d e : Cursor} {p : Pattern}

/-- The text of a group, from what stands before it and behind it. -/
theorem str_of_lookup {m : Match} {k : Nat} {text : Bytes} (before after : Bytes)
    (h : m.groups.lookup k = some (before.length, text.length)) (hn : n = before ++ (text ++ after)) : m.str k n = text := by
  rw [Match.str, h, hn]
  simp

open Pattern in
/-- The clause begins behind all the spaces. -/
theorem find?_clause (h : (run (.seq (plus true isSpace) (.group 3 (.many true isDot))) c).find? (fun d => d.after = []) = some d) :
    ∃ gap text, c.after = gap ++ text ∧ IsGap gap ∧ (∀ x ∈ text, isDot x = true) ∧ Leaves isSpace text ∧
      d.groups.lookup 3 = some ((gap.reverse ++ c.before).length, text.length) := by
  have hafter := List.find?_some h
  rw [decide_eq_true_eq] at hafter
  obtain ⟨w, hw, -, u, v, rfl, hu, hv⟩ := mem_run (List.mem_of_find?_eq_some h)
  rw [matches_plus] at hu
  rw [matches_group, matches_many] at hv
  rw [hafter, List.append_nil] at hw
  -- all the spaces, and what is behind them
  have hgapAll : (u ++ v).takeWhile isSpace = u ++ v.takeWhile isSpace := List.takeWhile_append_of_pos hu.2
  have hdropAll : (u ++ v).dropWhile isSpace = v.dropWhile isSpace := List.dropWhile_append_of_pos hu.2
  have hgap : IsGap (u ++ v.takeWhile isSpace) := by
    refine ⟨by simp [hu.1], fun x hx => ?_⟩
    rw [← hgapAll] at hx
    exact mem_takeWhile_class hx
  have hdot : ∀ x ∈ v.dropWhile isSpace, isDot x = true := fun x hx => hv x ((List.dropWhile_suffix _).mem hx)
  have htext : c.after = (u ++ v.takeWhile isSpace) ++ v.dropWhile isSpace := by
    rw [hw, List.append_assoc, List.takeWhile_append_dropWhile]
  have hstart := leaves_dropWhile (p := isSpace) v
  refine ⟨_, _, htext, hgap, hdot, hstart, ?_⟩
  obtain ⟨before, after, gs⟩ := c
  simp only at htext hw
  subst htext
  have hplus : (run (plus true isSpace) ⟨before, u ++ v.takeWhile isSpace ++ v.dropWhile isSpace, gs⟩).head? =
      some ⟨(u ++ v.takeWhile isSpace).reverse ++ before, v.dropWhile isSpace, gs⟩ := head?_run_plus hgap.1 hgap.2 hstart
  have hmany : (run (.many true isDot) ⟨(u ++ v.takeWhile isSpace).reverse ++ before, v.dropWhile isSpace ++ [], gs⟩).head? =
      some ⟨(v.dropWhile isSpace).reverse ++ ((u ++ v.takeWhile isSpace).reverse ++ before), [], gs⟩ :=
    head?_runMany hdot leaves_nil
  rw [List.append_nil] at hmany
  have hfirst := head?_run_seq hplus (head?_run_group (n := 3) hmany)
  obtain ⟨more, hrun⟩ := List.head?_eq_some_iff.1 hfirst
  rw [hrun, List.find?_cons_of_pos (by simp)] at h
  cases h
  simp

theorem lookup_group {k : Nat} {a : Pattern} (h : d ∈ run (.group k a) c) :
    d.groups.lookup k = some (c.before.length, d.before.length - c.before.length) := by
  rw [run, List.mem_map] at h
  obtain ⟨e, -, rfl⟩ := h
  simp

open Pattern in
/-- What the groups of a subscription's pattern take. -/
theorem fullMatch_parts {m : Match} (h : fullMatch SqlSubscriptionParser.selectPattern n = some m) :
    ∃ (t : SelectText) (rest : Bytes) (clause : Option Bytes), n = t.front ++ (t.table ++ rest) ∧ t.lead = [] ∧
      m.str 2 n = t.table ∧ (if m.matched 3 then m.str 3 n else []) = clause.getD [] ∧ WhereText rest clause := by
  obtain ⟨d, hd, rfl⟩ := fullMatch_eq_some h
  have hafter := List.find?_some hd
  rw [decide_eq_true_eq] at hafter
  obtain ⟨e₁, h₁, hd⟩ := find?_run_seq hd
  obtain ⟨e₂, h₂, hd⟩ := find?_run_seq hd
  obtain ⟨e₃, h₃, hd⟩ := find?_run_seq hd
  obtain ⟨e₄, h₄, hd⟩ := find?_run_seq hd
  obtain ⟨e₅, h₅, hd⟩ := find?_run_seq hd
  obtain ⟨e₆, h₆, hd⟩ := find?_run_seq hd
  obtain ⟨e₇, h₇, hd⟩ := find?_run_seq hd
  obtain ⟨select, ha₁, hb₁, hselect⟩ := mem_run h₁
  obtain ⟨gap₁, ha₂, hb₂, hgap₁⟩ := mem_run h₂
  obtain ⟨columns, ha₃, hb₃, hcolumns⟩ := mem_run h₃
  obtain ⟨gap₂, ha₄, hb₄, hgap₂⟩ := mem_run h₄
  obtain ⟨word, ha₅, hb₅, hword⟩ := mem_run h₅
  obtain ⟨gap₃, ha₆, hb₆, hgap₃⟩ := mem_run h₆
  obtain ⟨table, ha₇, hb₇, htable⟩ := mem_run h₇
  rw [matches_litI] at hselect hword
  rw [matches_plus] at hgap₁ hgap₂ hgap₃
  rw [matches_group, matches_many] at hcolumns
  rw [matches_group, matches_plus] at htable
  let t : SelectText := ⟨[], select, gap₁, columns, gap₂, word, gap₃, table, by simp, hselect, hgap₁, hcolumns, hgap₂, hword,
    hgap₃, ⟨htable.1, htable.2⟩⟩
  have hn : n = t.front ++ (t.table ++ e₇.after) := by
    have hall : n = select ++ (gap₁ ++ (columns ++ (gap₂ ++ (word ++ (gap₃ ++ (table ++ e₇.after)))))) := by
      rw [← ha₇, ← ha₆, ← ha₅, ← ha₄, ← ha₃, ← ha₂]
      exact ha₁
    simp only [hall, t, SelectText.front, List.nil_append, List.append_assoc]
  have hbefore : e₆.before.length = t.front.length := by
    simp only [hb₁, hb₂, hb₃, hb₄, hb₅, hb₆, t, SelectText.front, List.length_append, List.length_reverse, List.length_nil]
    omega
  have hlength : e₇.before.length = t.front.length + t.table.length := by
    rw [hb₇, List.length_append, List.length_reverse, hbefore, Nat.add_comm]
  have htableGroup : e₇.groups.lookup 2 = some (t.front.length, t.table.length) := by
    rw [lookup_group h₇, hbefore, hlength, Nat.add_sub_cancel_left]
  have hnoClause : e₇.groups.lookup 3 = none := by
    rw [lookup_run (by simp [Pattern.groups]) h₇, lookup_run (by simp) h₆, lookup_run (by simp) h₅, lookup_run (by simp) h₄,
      lookup_run (by simp [Pattern.groups]) h₃, lookup_run (by simp) h₂, lookup_run (by simp) h₁]
    rfl
  have hopt : (run (all [plus true isSpace, litI (str "where"), plus true isSpace, .group 3 (.many true isDot)]) e₇ ++ [e₇]).find?
      (fun d => decide (d.after = [])) = some d := hd
  rw [List.find?_append, Option.or_eq_some_iff] at hopt
  rcases hopt with hd | ⟨-, hd⟩
  · -- with a clause
    have htail : d.groups.lookup 2 = some (t.front.length, t.table.length) := by
      rw [lookup_run (by simp [Pattern.groups, all]) (List.mem_of_find?_eq_some hd), htableGroup]
    obtain ⟨e₈, h₈, hd⟩ := find?_run_seq hd
    obtain ⟨e₉, h₉, hd⟩ := find?_run_seq hd
    obtain ⟨gap, ha₈, hb₈, hgap⟩ := mem_run h₈
    obtain ⟨keyword, ha₉, hb₉, hkeyword⟩ := mem_run h₉
    rw [matches_plus] at hgap
    rw [matches_litI] at hkeyword
    obtain ⟨gap', text, ha, hgap', hdot, hstart, hgroup⟩ := find?_clause hd
    have hrest : e₇.after = gap ++ (keyword ++ (gap' ++ text)) := by rw [ha₈, ha₉, ha]
    have hplace : (gap'.reverse ++ e₉.before).length = (t.front ++ (t.table ++ (gap ++ (keyword ++ gap')))).length := by
      simp only [hb₉, hb₈, List.length_append, List.length_reverse, hlength]
      omega
    have hstr : (⟨0, n.length, d.groups⟩ : Match).str 3 n = text := by
      refine str_of_lookup (t.front ++ (t.table ++ (gap ++ (keyword ++ gap')))) [] (hplace ▸ hgroup) ?_
      rw [hn, hrest]
      simp only [List.append_assoc, List.append_nil]
    have hmatched : (⟨0, n.length, d.groups⟩ : Match).matched 3 = true := by simp [Match.matched, hgroup]
    refine ⟨t, e₇.after, if text = [] then none else some text, hn, rfl, str_of_lookup t.front e₇.after htail hn, ?_, ?_⟩
    · rw [if_pos hmatched, hstr]
      split <;> simp_all
    · rw [hrest]
      split
      · rename_i hnil
        rw [hnil, List.append_nil]
        exact .blank hgap hkeyword hgap'
      · exact .clause hgap hkeyword hgap' hdot ‹_› hstart
  · have hd' : e₇ = d := by
      have hsingle := List.mem_of_find?_eq_some hd
      exact (List.mem_singleton.1 hsingle).symm
    subst hd'
    refine ⟨t, [], none, by rw [hn, hafter], rfl, str_of_lookup t.front [] htableGroup (by rw [hn, hafter]), ?_, .none⟩
    have hmatched : (⟨0, n.length, e₇.groups⟩ : Match).matched 3 = false := by simp [Match.matched, hnoClause]
    rw [hmatched]
    rfl

/-- **A subscription's query** and what the parser takes out of it. -/
theorem parse_parts {query id client : Bytes} {sub : SqlSubscription} (h : SqlSubscriptionParser.parse query id client = some sub) :
    ∃ (t : SelectText) (rest trail : Bytes) (clause : Option Bytes), query = t.front ++ (t.table ++ (rest ++ trail)) ∧
      WhereText rest clause ∧ (∀ c ∈ trail, SqlSubscriptionParser.isTrimmed c = true) ∧ sub.tableName = t.table ∧
      sub.whereClause = clause ∧
      (match clause with
        | none => sub.predicate = none
        | some text => ∃ node, Predicate.parse text = .ok node ∧ sub.predicate = some node) := by
  unfold SqlSubscriptionParser.parse at h
  simp only at h
  cases hmatch : fullMatch SqlSubscriptionParser.selectPattern (SqlSubscriptionParser.trim query) with
  | none =>
    rw [hmatch] at h
    cases h
  | some m =>
    obtain ⟨t, rest, clause, hn, hlead, htable, hclause, htext⟩ := fullMatch_parts hmatch
    obtain ⟨lead, trail, hquery, hleading, htrail, hend⟩ := trim_spec query
    let t' : SelectText := { t with lead := lead, lead_trimmed := hleading }
    have hfront : t'.front = lead ++ t.front := by simp only [SelectText.front, t', hlead, List.nil_append]
    have hall : query = t'.front ++ (t'.table ++ (rest ++ trail)) := by
      have hsplit := hquery
      rw [hn] at hsplit
      rw [hsplit, hfront]
      simp only [t', List.append_assoc]
    have htrimmed : (if m.matched 3 = true then SqlSubscriptionParser.trim (m.str 3 (SqlSubscriptionParser.trim query)) else []) =
        SqlSubscriptionParser.trim (clause.getD []) := by
      rw [← hclause]
      split <;> rfl
    rw [hmatch] at h
    simp only [htable, t.isName.trim, htrimmed] at h
    cases htext with
    | none | blank _ _ _ =>
      have hempty : SqlSubscriptionParser.trim ((none : Option Bytes).getD []) = [] := rfl
      rw [if_pos hempty] at h
      cases h
      refine ⟨t', _, trail, none, hall, ?_, htrail, rfl, rfl, rfl⟩
      first
        | exact .none
        | exact .blank ‹_› ‹_› ‹_›
    | @clause gap word gap' text hgap hword hgap' hdot hne hstart =>
      have hkeep : SqlSubscriptionParser.trim text = text := by
        refine trim_eq_self ?_ ?_
        · intro x more hx
          have hspace := hstart x more hx
          cases htrimmed : SqlSubscriptionParser.isTrimmed x with
          | false => rfl
          | true =>
            rw [isSpace_of_isTrimmed htrimmed] at hspace
            cases hspace
        · intro x more hx
          refine hend x (more ++ (t.front ++ (t.table ++ (gap ++ (word ++ gap')))).reverse) ?_
          rw [hn]
          simp only [List.reverse_append, List.append_assoc, hx, List.cons_append]
      rw [Option.getD_some, hkeep, if_neg hne] at h
      cases hparse : Predicate.parse text with
      | error e =>
        rw [hparse] at h
        cases h
      | ok node =>
        rw [hparse] at h
        cases h
        exact ⟨t', _, trail, some text, hall, .clause hgap hword hgap' hdot hne hstart, htrail, rfl, rfl, node, hparse, rfl⟩

end Parts

end OriginDB
