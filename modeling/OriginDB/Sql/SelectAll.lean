import OriginDB.Lib.FirstWay
import OriginDB.Sql.Engine
/-!
# `SELECT * FROM t` (`sql_subscription.cpp:156-238`, `sql_engine.cpp:316-479`)

A subscription to a whole table is read twice: by the subscription parser, and by the SQL parser when the
snapshot is taken. For a table both of them can name, they agree on it (`parse_subscription`, `parse_select`).
-/
namespace OriginDB

open JsonDoc ByteCodec Regex

/-- A name `\w+` takes as a whole. -/
structure IsName (t : Bytes) : Prop where
  ne_nil : t ≠ []
  word : ∀ c ∈ t, isWord c = true

/-- `SELECT * FROM t`. -/
def selectAll (t : Bytes) : Bytes := str "SELECT * FROM " ++ t

theorem isSpace_of_isTrimmed {c : UInt8} (h : SqlSubscriptionParser.isTrimmed c = true) : isSpace c = true := by
  have hall := forall_byte (p := fun c => !SqlSubscriptionParser.isTrimmed c || isSpace c) (by decide +kernel) c
  simpa [h] using hall

section Name
variable {t : Bytes}

theorem IsName.head (h : IsName t) : ∃ x s, t = x :: s ∧ isSpace x = false := by
  cases t with
  | nil => exact absurd rfl h.ne_nil
  | cons x s => exact ⟨x, s, rfl, not_isSpace_of_isWord (h.word x (by simp))⟩

theorem IsName.head?_plus (h : IsName t) (before : Bytes) (gs : List (Nat × Nat × Nat)) :
    (run (.plus true isWord) ⟨before, t, gs⟩).head? = some ⟨t.reverse ++ before, [], gs⟩ := by
  have hplus : (run (.plus true isWord) ⟨before, t ++ [], gs⟩).head? = some ⟨t.reverse ++ before, [], gs⟩ :=
    head?_run_plus h.ne_nil h.word leaves_nil
  rwa [List.append_nil] at hplus

/-- One space, and then the name. -/
theorem IsName.space (h : IsName t) (before : Bytes) (gs : List (Nat × Nat × Nat)) :
    run (.plus true isSpace) ⟨before, 32 :: t, gs⟩ = [⟨32 :: before, t, gs⟩] := by
  obtain ⟨x, s, rfl, hx⟩ := h.head
  simp [Pattern.plus, run, runMany, hx, show isSpace 32 = true by decide]

/-- The length of the group that has just been closed. -/
theorem length_group (t before : Bytes) : (t.reverse ++ before).length - before.length = t.length := by
  rw [List.length_append, List.length_reverse, Nat.add_sub_cancel]

/-! ## The subscription parser -/

open Pattern in
/-- What comes after the star. -/
theorem IsName.fromTable (h : IsName t) (before : Bytes) (gs : List (Nat × Nat × Nat)) :
    (run (all [plus true isSpace, litI (str "from"), plus true isSpace, .group 2 (plus true isWord),
        opt (all [plus true isSpace, litI (str "where"), plus true isSpace, .group 3 (.many true isDot)])])
      ⟨before, str " FROM " ++ t, gs⟩).head? =
    some ⟨t.reverse ++ (32 :: 77 :: 79 :: 82 :: 70 :: 32 :: before), [], (2, before.length + 6, t.length) :: gs⟩ := by
  refine head?_run_seq (d := ⟨32 :: before, str "FROM " ++ t, gs⟩) rfl ?_
  refine head?_run_seq (d := ⟨77 :: 79 :: 82 :: 70 :: 32 :: before, 32 :: t, gs⟩) rfl ?_
  refine head?_run_seq (d := ⟨32 :: 77 :: 79 :: 82 :: 70 :: 32 :: before, t, gs⟩) ?_ ?_
  · rw [h.space]
    rfl
  · refine head?_run_seq (head?_run_group (h.head?_plus _ _)) ?_
    rw [length_group]
    rfl

/-- Nothing is trimmed off a text that neither begins nor ends with a space. -/
theorem trim_of_ends {s u v : Bytes} {x y : UInt8} (hs : s = x :: u) (hr : s.reverse = y :: v) (hx : isSpace x = false)
    (hy : isSpace y = false) : SqlSubscriptionParser.trim s = s := by
  have htrimmed : ∀ c, isSpace c = false → SqlSubscriptionParser.isTrimmed c = false := by
    intro c hc
    cases ht : SqlSubscriptionParser.isTrimmed c with
    | false => rfl
    | true =>
      rw [isSpace_of_isTrimmed ht] at hc
      cases hc
  have hfirst : s.dropWhile SqlSubscriptionParser.isTrimmed = s := by
    rw [hs, List.dropWhile_cons_of_neg (by simp [htrimmed x hx])]
  rw [SqlSubscriptionParser.trim, hfirst, hr, List.dropWhile_cons_of_neg (by simp [htrimmed y hy]), ← hr,
    List.reverse_reverse]

theorem IsName.last (h : IsName t) : ∃ y v, t.reverse = y :: v ∧ isSpace y = false := by
  cases hr : t.reverse with
  | nil => exact absurd (List.reverse_eq_nil_iff.1 hr) h.ne_nil
  | cons y v => exact ⟨y, v, rfl, not_isSpace_of_isWord (h.word y (List.mem_reverse.1 (by simp [hr])))⟩

theorem IsName.trim (h : IsName t) : SqlSubscriptionParser.trim t = t := by
  obtain ⟨x, u, hs, hx⟩ := h.head
  obtain ⟨y, v, hr, hy⟩ := h.last
  exact trim_of_ends hs hr hx hy

theorem IsName.trim_selectAll (h : IsName t) : SqlSubscriptionParser.trim (selectAll t) = selectAll t := by
  obtain ⟨y, v, hr, hy⟩ := h.last
  have hrev : (selectAll t).reverse = y :: (v ++ (str "SELECT * FROM ").reverse) := by
    rw [selectAll, List.reverse_append, hr]
    rfl
  exact trim_of_ends (x := 83) rfl hrev (by decide) hy

open Pattern in
theorem IsName.fullMatch (h : IsName t) : fullMatch SqlSubscriptionParser.selectPattern (selectAll t) =
    some ⟨0, (selectAll t).length, [(2, 14, t.length), (1, 7, 1)]⟩ := by
  have hrun : (run SqlSubscriptionParser.selectPattern ⟨[], selectAll t, []⟩).head? =
      some ⟨t.reverse ++ (str "SELECT * FROM ").reverse, [], [(2, 14, t.length), (1, 7, 1)]⟩ := by
    refine head?_run_seq (d := ⟨(str "SELECT").reverse, str " * FROM " ++ t, []⟩) rfl ?_
    refine head?_run_seq (d := ⟨(str "SELECT ").reverse, str "* FROM " ++ t, []⟩) rfl ?_
    -- nothing at all is tried for the columns first, then the star
    have hcols : ∃ more, run (.group 1 (.many false isDot)) ⟨(str "SELECT ").reverse, str "* FROM " ++ t, []⟩ =
        ⟨(str "SELECT ").reverse, str "* FROM " ++ t, [(1, 7, 0)]⟩ ::
        ⟨(str "SELECT *").reverse, str " FROM " ++ t, [(1, 7, 1)]⟩ :: more := ⟨_, rfl⟩
    obtain ⟨more, hcols⟩ := hcols
    have hstar := h.fromTable (str "SELECT *").reverse [(1, 7, 1)]
    obtain ⟨more', hstar⟩ := List.head?_eq_some_iff.1 hstar
    show ((run (.group 1 (.many false isDot)) _).flatMap (run _)).head? = _
    rw [hcols, List.flatMap_cons, List.flatMap_cons]
    show ([] ++ (run _ _ ++ _)).head? = _
    rw [List.nil_append, hstar]
    rfl
  obtain ⟨more, hrun⟩ := List.head?_eq_some_iff.1 hrun
  rw [Regex.fullMatch, hrun, List.find?_cons_of_pos (by simp)]
  rfl

/-- **The subscription parser** reads it as a subscription to the whole table. -/
theorem IsName.parse_subscription (h : IsName t) (id client : Bytes) :
    SqlSubscriptionParser.parse (selectAll t) id client =
      some { id := id, clientId := client, type := .selectAll, tableName := t } := by
  have htable : (⟨0, (selectAll t).length, [(2, 14, t.length), (1, 7, 1)]⟩ : Match).str 2 (selectAll t) = t := by
    show (t : Bytes).take t.length = t
    rw [List.take_length]
  simp only [SqlSubscriptionParser.parse, h.trim_selectAll, h.fullMatch, htable, h.trim]
  rfl

/-! ## The SQL parser -/

theorem IsName.upper (h : IsName t) : IsName (SqlParser.upper t) :=
  ⟨by simpa [SqlParser.upper] using h.ne_nil, all_map isWord_toUpper h.word⟩

theorem upper_selectAll (t : Bytes) : SqlParser.upper (selectAll t) = selectAll (SqlParser.upper t) := by
  rw [SqlParser.upper, selectAll, List.map_append]
  rfl

theorem IsName.no_paren (h : IsName t) : (40 : UInt8) ∉ selectAll t := by
  intro hmem
  rcases List.mem_append.1 hmem with hmem | hmem
  · exact absurd hmem (by decide)
  · exact absurd (h.word 40 hmem) (by decide)

theorem IsName.not_insert (h : IsName t) : ¬ SqlParser.insertPattern.Occurs (selectAll t) := by
  rintro ⟨l, w, r, hs, hm⟩
  obtain ⟨_, _, rfl, _, _, _, rfl, _, _, _, rfl, _, _, _, rfl, _, _, _, rfl, _, _, _, rfl, _, _, _, rfl, _, _, _, rfl, _, _, _,
    rfl, _, _, _, rfl, _, p, _, rfl, hp, _⟩ := hm
  rw [matches_lit] at hp
  refine h.no_paren ?_
  rw [hs, hp]
  simp [show str "(" = [40] from rfl]

theorem IsName.not_create (h : IsName t) : ¬ SqlParser.createPattern.Occurs (selectAll t) := by
  rintro ⟨l, w, r, hs, hm⟩
  obtain ⟨_, _, rfl, _, _, _, rfl, _, _, _, rfl, _, _, _, rfl, _, _, _, rfl, _, _, _, rfl, _, p, _, rfl, hp, _⟩ := hm
  rw [matches_lit] at hp
  refine h.no_paren ?_
  rw [hs, hp]
  simp [show str "(" = [40] from rfl]

open Pattern in
/-- What comes after the columns. -/
def fromName : Regex.Pattern := all [plus true isSpace, lit (str "FROM"), plus true isSpace, .group 1 (plus true isWord)]

/-- It does not match where only the name is left, with a space before it or without. -/
theorem IsName.run_fromName (h : IsName t) {c : Cursor} (hc : c.after <:+ 32 :: t) : run fromName c = [] := by
  rw [List.eq_nil_iff_forall_not_mem]
  intro d hd
  obtain ⟨w, hw, -, u₁, v₁, rfl, hs₁, u₂, v₂, rfl, hs₂, u₃, v₃, rfl, hs₃, hs₄⟩ := mem_run hd
  rw [matches_lit] at hs₂
  rw [matches_plus] at hs₁ hs₃
  -- the second space would be inside the name
  obtain ⟨x, u, rfl⟩ := List.exists_cons_of_ne_nil hs₃.1
  obtain ⟨y, v, rfl⟩ := List.exists_cons_of_ne_nil hs₁.1
  obtain ⟨pre, hpre⟩ := hc
  rw [hw] at hpre
  have hmem : x ∈ t := by
    cases pre with
    | nil =>
      simp only [List.nil_append, List.cons_append, List.cons.injEq] at hpre
      rw [← hpre.2]
      simp
    | cons z pre =>
      simp only [List.cons_append, List.cons.injEq] at hpre
      rw [← hpre.2]
      simp
  have hspace := hs₃.2 x (by simp)
  rw [not_isSpace_of_isWord (h.word x hmem)] at hspace
  cases hspace

theorem IsName.head?_fromName (h : IsName t) (before : Bytes) :
    (run fromName ⟨before, str " FROM " ++ t, []⟩).head? =
    some ⟨t.reverse ++ (32 :: 77 :: 79 :: 82 :: 70 :: 32 :: before), [], [(1, before.length + 6, t.length)]⟩ := by
  refine head?_run_seq (d := ⟨32 :: before, str "FROM " ++ t, []⟩) rfl ?_
  refine head?_run_seq (d := ⟨77 :: 79 :: 82 :: 70 :: 32 :: before, 32 :: t, []⟩) rfl ?_
  refine head?_run_seq (d := ⟨32 :: 77 :: 79 :: 82 :: 70 :: 32 :: before, t, []⟩) ?_ ?_
  · rw [h.space]
    rfl
  · refine (head?_run_group (h.head?_plus _ _)).trans ?_
    rw [length_group]
    rfl

/-- The greedy `.*` gives back the name and the `FROM` before there is a match. -/
theorem IsName.head?_select (h : IsName t) : (run SqlParser.selectPattern ⟨[], selectAll t, []⟩).head? =
    some ⟨t.reverse ++ (str "SELECT * FROM ").reverse, [], [(1, 14, t.length)]⟩ := by
  refine head?_run_seq (d := ⟨(str "SELECT").reverse, str " * FROM " ++ t, []⟩) rfl ?_
  refine head?_run_seq (d := ⟨(str "SELECT ").reverse, str "* FROM " ++ t, []⟩) rfl ?_
  obtain ⟨more, hstar⟩ := List.head?_eq_some_iff.1 (h.head?_fromName (str "SELECT *").reverse)
  have hname : (runMany true isDot [] (str "SELECT * FROM ").reverse t).flatMap (run fromName) = [] := by
    rw [List.flatMap_eq_nil_iff]
    intro c hc
    obtain ⟨w, -, hw, -⟩ := mem_runMany.1 hc
    exact h.run_fromName ⟨32 :: w, by rw [hw]; rfl⟩
  have hspace : run fromName ⟨(str "SELECT * FROM").reverse, 32 :: t, []⟩ = [] := h.run_fromName ⟨[], rfl⟩
  have hways : run (.many true isDot) ⟨(str "SELECT ").reverse, str "* FROM " ++ t, []⟩ =
      runMany true isDot [] (str "SELECT * FROM ").reverse t ++ [⟨(str "SELECT * FROM").reverse, 32 :: t, []⟩] ++
      [⟨(str "SELECT * FRO").reverse, str "M " ++ t, []⟩] ++ [⟨(str "SELECT * FR").reverse, str "OM " ++ t, []⟩] ++
      [⟨(str "SELECT * F").reverse, str "ROM " ++ t, []⟩] ++ [⟨(str "SELECT * ").reverse, str "FROM " ++ t, []⟩] ++
      [⟨(str "SELECT *").reverse, str " FROM " ++ t, []⟩] ++ [⟨(str "SELECT ").reverse, str "* FROM " ++ t, []⟩] := rfl
  show ((run (.many true isDot) _).flatMap (run fromName)).head? = _
  rw [hways]
  simp only [List.flatMap_append, List.flatMap_singleton, hname, hspace, List.nil_append]
  show ([] ++ [] ++ [] ++ [] ++ run fromName _ ++ _).head? = _
  rw [hstar]
  rfl

theorem IsName.search (h : IsName t) : search SqlParser.selectPattern (selectAll t) =
    some ⟨0, (selectAll t).length, [(1, 14, t.length)]⟩ := by
  obtain ⟨more, hrun⟩ := List.head?_eq_some_iff.1 h.head?_select
  rw [Regex.search, searchFrom.eq_def]
  simp only [hrun]
  simp [selectAll, Nat.add_comm]

/-- **The SQL parser** reads it as a SELECT from the same table. -/
theorem IsName.parse_select (h : IsName t) :
    SqlParser.parse (selectAll t) = some { type := .select, tableName := t, rawSql := selectAll t } := by
  have hnone : ∀ p : Regex.Pattern, ¬ p.Occurs (selectAll (SqlParser.upper t)) →
      Regex.search p (selectAll (SqlParser.upper t)) = none := by
    intro p hp
    rw [← search_isSome] at hp
    simpa using hp
  rw [SqlParser.parse, upper_selectAll, hnone _ h.upper.not_insert, hnone _ h.upper.not_create, h.upper.search]
  have htable : (⟨0, (selectAll (SqlParser.upper t)).length, [(1, 14, (SqlParser.upper t).length)]⟩ : Match).str 1 (selectAll t) =
      t := by
    show (t : Bytes).take (SqlParser.upper t).length = t
    rw [SqlParser.upper, List.length_map, List.take_length]
  simp only [htable]

end Name

end OriginDB
