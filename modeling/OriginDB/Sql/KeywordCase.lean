import OriginDB.Sql.Spellings
/-!
# The case of keywords and names (`sql_engine.cpp:316-479`)

`Parse` classifies the upper-cased text and then takes each part of the statement from one text or the other.

| part | taken from |
| --- | --- |
| the table                            | the text, where the match has it (`:336`, `:391`, `:421`, `:431`) |
| the columns of an INSERT             | the upper-cased text (`:341`) |
| the values of an INSERT              | a second search, in the text itself (`:355-357`) |
| columns and values of a SET list     | a second search, in the text itself (`:435-437`) |
| the WHERE clause                     | the upper-cased text (`:472`) |

The expressions are case-sensitive, so the second search finds the match only where the keywords are capitals; and what is
taken from the upper-cased text has lost its case. `Faithful` is what the statement should be. `CaseBlind` is when it is, and
is computed from the text: of all the spellings of the keywords it looks at finitely many.
-/
namespace OriginDB

open JsonDoc ByteCodec Regex Pattern

/-- The same statement, but for the text it was read from. -/
def SqlStatement.SameMeaning (a b : SqlStatement) : Prop := { b with rawSql := a.rawSql } = a

namespace SqlParser

/-! ## Respelling the keywords -/

/-- The match a text is classified by. -/
def classified (sql : Bytes) : Option Match :=
  (search insertPattern (upper sql)).or
    ((search createPattern (upper sql)).or ((search selectPattern (upper sql)).or (search updatePattern (upper sql))))

/-- The same text with other letters, capital or small, in its keywords: in what the match has outside its groups. -/
structure Respelled (sql sql' : Bytes) : Prop where
  upper : upper sql' = upper sql
  outside : ∀ m, classified sql = some m → ∀ i, ¬ m.Between i → sql'[i]? = sql[i]?

/-- All keywords in capitals. -/
def capitals (m : Match) (sql : Bytes) : Bytes := sql.mapIdx fun i c => if m.Between i then toUpper c else c

section
variable {sql sql' : Bytes} {m : Match}

theorem toUpper_eq_self_iff (c : UInt8) : toUpper c = c ↔ isLower c = false :=
  ⟨fun h => h ▸ isLower_toUpper c, fun h => by rw [toUpper, h]; rfl⟩

theorem upper_eq_self_iff {s : Bytes} : upper s = s ↔ ∀ c ∈ s, isLower c = false := by
  induction s with
  | nil => simp [upper]
  | cons c s ih =>
    rw [upper, List.map_cons, List.cons.injEq, toUpper_eq_self_iff, List.forall_mem_cons, ← ih]
    rfl

theorem getElem?_capitals (m : Match) (sql : Bytes) (i : Nat) :
    (capitals m sql)[i]? = sql[i]?.map fun c => if m.Between i then toUpper c else c := by
  rw [capitals, List.getElem?_mapIdx]

theorem upper_capitals (m : Match) (sql : Bytes) : upper (capitals m sql) = upper sql := by
  refine List.ext_getElem? fun i => ?_
  rw [upper, upper, List.getElem?_map, List.getElem?_map, getElem?_capitals, Option.map_map]
  refine Option.map_congr fun c _ => ?_
  by_cases h : m.Between i
  · simp [h, toUpper_toUpper]
  · simp [h]

theorem respelled_iff (h : classified sql = some m) : Respelled sql sql' ↔ m.Respells sql sql' := by
  constructor
  · intro hr
    exact ⟨hr.upper, hr.outside m h⟩
  · intro hr
    refine ⟨hr.image, fun m' hm' => ?_⟩
    rw [h, Option.some.injEq] at hm'
    exact hm' ▸ hr.outside

theorem respelled_capitals (h : classified sql = some m) : Respelled sql (capitals m sql) := by
  refine (respelled_iff h).2 ⟨upper_capitals m sql, fun i hi => ?_⟩
  rw [getElem?_capitals]
  simp [hi]

theorem Respelled.refl (sql : Bytes) : Respelled sql sql := ⟨rfl, fun _ _ _ _ => rfl⟩

/-- What the groups have stays as it is. -/
theorem Respelled.str (h : Respelled sql sql') (hm : classified sql = some m) (n : Nat) : m.str n sql' = m.str n sql := by
  rw [Match.str, Match.str]
  cases hl : m.groups.lookup n with
  | none => rfl
  | some g =>
    obtain ⟨pos, len⟩ := g
    obtain ⟨before, after, hgroups, -⟩ := List.lookup_eq_some_iff.1 hl
    refine List.ext_getElem? fun i => ?_
    rw [List.getElem?_take, List.getElem?_take]
    split
    · rw [List.getElem?_drop, List.getElem?_drop]
      refine h.outside m hm (pos + i) fun hbetween => ?_
      exact hbetween.2.2 (n, pos, len) (by rw [hgroups]; simp) ⟨Nat.le_add_right _ _, by simp only; omega⟩
    · rfl

theorem str_upper (m : Match) (n : Nat) (sql : Bytes) : m.str n (upper sql) = upper (m.str n sql) := by
  rw [Match.str, Match.str]
  cases m.groups.lookup n with
  | none => rfl
  | some g => simp [upper, List.map_take, List.map_drop]

end

/-- **With its keywords in capitals** a text has the match that classifies it. -/
theorem search_capitals {p : Pattern} {sql : Bytes} {m : Match} (h : p.Keyed toUpper) (hm : search p (upper sql) = some m) :
    search p (capitals m sql) = some m := by
  rw [← upper_capitals m sql] at hm
  refine search_of_fixed h hm fun i x hx hi => ?_
  rw [getElem?_capitals, Option.map_eq_some_iff] at hx
  obtain ⟨c, -, rfl⟩ := hx
  rw [if_pos hi, toUpper_toUpper]

/-! ## What the statement should be -/

def names (list : Bytes) : List Bytes := (findAll columnPattern list).map fun c => c.text list

/-- The columns of an INSERT as the text has them. -/
def writtenColumns (sql : Bytes) (m : Match) : List Bytes :=
  if m.str 2 sql ≠ [] then names (m.str 2 sql) else [str "id", str "name", str "email"]

/-- The table, the columns and the WHERE text are what the text has where the match has them, and the names of a SET list
and all string values are parts of the text. -/
structure Spelled (sql : Bytes) (m : Match) (stmt : SqlStatement) : Prop where
  table : stmt.type ≠ .createTable → stmt.tableName = m.str 1 sql
  schema : stmt.type = .createTable → stmt.tableSchema.name = m.str 1 sql
  columns : stmt.type = .insert → stmt.columns = writtenColumns sql m
  whereText : stmt.type = .update → stmt.whereClause = m.str 3 sql
  names : stmt.type = .update → ∀ c ∈ stmt.columns, c <:+: sql
  literals : ∀ v, .string v ∈ stmt.values → v <:+: sql

/-- A text that is accepted is spelled as it is written, and means the same whatever the case of its keywords. -/
def Faithful (sql : Bytes) : Prop := ∀ stmt m, parse sql = some stmt → classified sql = some m →
  Spelled sql m stmt ∧ ∀ sql', Respelled sql sql' → ∃ stmt', parse sql' = some stmt' ∧ stmt.SameMeaning stmt'

/-! ## When it is -/

/-- What the second search makes of this text is what the value list says: it finds a list with the same values, or none
and the list has none. -/
def ListRead (sql list : Bytes) : Prop :=
  match valueList sql with
  | some found => parseValues found = parseValues list
  | none => ∀ c ∈ list, c ≠ 44 → isSpace c = true

/-- Likewise for a SET list. -/
def SetRead (sql clause : Bytes) : Prop :=
  match setClause sql with
  | some found => parseSet found = parseSet clause
  | none => ∀ item ∈ clause.splitOn 44, ∀ value, itemValue item = some value → value = []

/-- Nothing in the text depends on case: no small letter in what is taken from the upper-cased text, and the values are
found, or there are none, however many of the keywords are in capitals, the others having a capital only at the front, or
a small letter only there (`Match.spellings`). -/
structure CaseBlind (sql : Bytes) : Prop where
  insert : ∀ m, search insertPattern (upper sql) = some m → (∀ name ∈ names (m.str 2 sql), ∀ c ∈ name, isLower c = false) ∧
    ∀ sql' ∈ m.spellings insertWords sql, ListRead sql' (m.str 3 sql)
  update : IsUpdate sql → ∀ m, search updatePattern (upper sql) = some m → (∀ c ∈ m.str 3 sql, isLower c = false) ∧
    ∀ sql' ∈ m.spellings updateWords sql, SetRead sql' (m.str 2 sql)

/-! ## The parts of the text -/

section
variable {sql sql' : Bytes} {m : Match}

theorem str_within (m : Match) (n : Nat) (s : Bytes) : m.str n s <:+: s := by
  rw [Match.str]
  cases m.groups.lookup n with
  | none => exact List.nil_infix
  | some g => exact (List.take_prefix _ _).isInfix.trans (List.drop_suffix _ _).isInfix

theorem parseValue_string {value v : Bytes} (h : parseValue value = .string v) : v = value := by
  rw [parseValue] at h
  split at h
  · split at h
    · cases h
    · cases h
      rfl
  · split at h
    · cases h
    · cases h
      rfl

theorem parseValues_string {list v : Bytes} (h : .string v ∈ parseValues list) : v <:+: list := by
  rw [parseValues, List.mem_map] at h
  obtain ⟨m, -, hm⟩ := h
  split at hm
  · cases hm
    exact str_within m 1 list
  · rw [parseValue_string hm]
    exact str_within m 2 list

theorem trimBlanks_within (text : Bytes) : trimBlanks text <:+: text := by
  rw [trimBlanks]
  have hback : (((text.dropWhile isBlank).reverse.dropWhile isBlank).reverse) <+: text.dropWhile isBlank := by
    rw [← List.reverse_suffix, List.reverse_reverse]
    exact List.dropWhile_suffix _
  exact hback.isInfix.trans (List.dropWhile_suffix _).isInfix

theorem parseSetValue_string {text v : Bytes} (h : parseSetValue text = .string v) : v <:+: text := by
  rw [parseSetValue] at h
  refine List.IsInfix.trans ?_ (trimBlanks_within text)
  split at h
  · cases h
    exact (List.take_prefix _ _).isInfix.trans (List.drop_suffix _ _).isInfix
  · rw [parseValue_string h]
    exact List.infix_refl _

theorem parseSet_within {clause c : Bytes} {v : Value} (h : (c, v) ∈ parseSet clause) :
    c <:+: clause ∧ ∀ s, v = .string s → s <:+: clause := by
  rw [parseSet, List.mem_map] at h
  obtain ⟨m, -, hm⟩ := h
  cases hm
  exact ⟨str_within m 1 clause, fun s hs => (parseSetValue_string hs).trans (str_within m 2 clause)⟩

theorem names_upper (list : Bytes) : names (upper list) = (names list).map upper := by
  have hblind : columnPattern.Blind toUpper := blind_plus blind_isWord
  rw [names, upper, findAll_map hblind, names, List.map_map]
  refine List.map_congr_left fun c _ => ?_
  simp [Match.text, upper, List.map_take, List.map_drop]

/-- Names keep their case exactly where they have no small letter. -/
theorem names_upper_eq_iff {list : Bytes} :
    names (upper list) = names list ↔ ∀ name ∈ names list, ∀ c ∈ name, isLower c = false := by
  rw [names_upper]
  simp only [← upper_eq_self_iff]
  generalize names list = ns
  induction ns with
  | nil => simp
  | cons n ns ih => rw [List.map_cons, List.cons.injEq, List.forall_mem_cons, ih]

theorem parseSet_eq_nil {clause : Bytes} :
    parseSet clause = [] ↔ ∀ item ∈ clause.splitOn 44, ∀ value, itemValue item = some value → value = [] := by
  have hnone : ∀ value : Bytes, setText value = none ↔ value = [] := by
    intro value
    rw [setText]
    split
    · simp
    · rename_i hne
      simp only [reduceCtorEq, false_iff]
      rintro rfl
      exact hne rfl
  have htexts : parseSet clause = [] ↔ setTexts clause = [] := by
    rw [parseSet, List.map_eq_nil_iff, ← findAll_setPattern, List.map_eq_nil_iff]
  rw [htexts, setTexts, List.filterMap_eq_nil_iff]
  refine forall_congr' fun item => forall_congr' fun _ => ?_
  cases itemValue item with
  | none => simp
  | some value => simpa using hnone value

/-! ## Each kind of statement -/

theorem classified_insert (h : search insertPattern (upper sql) = some m) : classified sql = some m := by
  rw [classified, h, Option.some_or]

theorem classified_update (hu : IsUpdate sql) (h : search updatePattern (upper sql) = some m) :
    classified sql = some m := by
  rw [classified, search_eq_none_iff.2 hu.noInsert, search_eq_none_iff.2 hu.noCreate, search_eq_none_iff.2 hu.noSelect, h]
  rfl

theorem parse_insert (h : search insertPattern (upper sql) = some m) : parse sql = some (parseInsert sql m) := by
  rw [parse, h]

theorem parse_update (hu : IsUpdate sql) (h : search updatePattern (upper sql) = some m) :
    parse sql = some (parseUpdate sql m) := by
  rw [parse, search_eq_none_iff.2 hu.noInsert, search_eq_none_iff.2 hu.noCreate, search_eq_none_iff.2 hu.noSelect, h]

theorem parseInsert_values (sql : Bytes) (m : Match) :
    (parseInsert sql m).values = ((valueList sql).map parseValues).getD [] := by
  rw [parseInsert, valueList]
  cases search insertPattern sql <;> rfl

theorem listRead_iff {list : Bytes} :
    ListRead sql list ↔ ((valueList sql).map parseValues).getD [] = parseValues list := by
  rw [ListRead]
  cases valueList sql with
  | none =>
    simp only [Option.map_none, Option.getD_none]
    rw [← parseValues_eq_nil, eq_comm]
  | some found => rfl

/-- The SET list an UPDATE has. -/
def setItems (sql : Bytes) : List (Bytes × Value) := ((setClause sql).map parseSet).getD []

theorem parseUpdate_items (sql : Bytes) (m : Match) : (parseUpdate sql m).columns = (setItems sql).map Prod.fst ∧
    (parseUpdate sql m).values = (setItems sql).map Prod.snd := by
  rw [parseUpdate, setItems, setClause]
  cases search updatePattern sql <;> exact ⟨rfl, rfl⟩

theorem setRead_iff {clause : Bytes} : SetRead sql clause ↔ setItems sql = parseSet clause := by
  rw [SetRead, setItems]
  cases setClause sql with
  | none =>
    simp only [Option.map_none, Option.getD_none]
    rw [← parseSet_eq_nil, eq_comm]
  | some found => rfl

/-- **The values of every spelling** are those of the list if those of finitely many spellings are. -/
theorem forall_listRead_iff {list : Bytes} (h : search insertPattern (upper sql) = some m) :
    (∀ sql', Respelled sql sql' → ListRead sql' list) ↔ ∀ sql' ∈ m.spellings insertWords sql, ListRead sql' list := by
  simp only [respelled_iff (classified_insert h)]
  refine forall_spellings_iff worded_insertPattern apart_insertWords h fun a b t hblend ha hb => ?_
  simp only [listRead_iff, valueList, ha, hb]
  cases search insertPattern t with
  | none => exact fun hlist _ => hlist
  | some found =>
    intro hvalues hvalues'
    exact (parseValues_blend (hblend.str found 3) (hvalues.trans hvalues'.symm)).trans hvalues

/-- And so is the SET list. -/
theorem forall_setRead_iff {clause : Bytes} (hu : IsUpdate sql) (h : search updatePattern (upper sql) = some m) :
    (∀ sql', Respelled sql sql' → SetRead sql' clause) ↔ ∀ sql' ∈ m.spellings updateWords sql, SetRead sql' clause := by
  simp only [respelled_iff (classified_update hu h)]
  refine forall_spellings_iff worded_updatePattern apart_updateWords h fun a b t hblend ha hb => ?_
  simp only [setRead_iff, setItems, setClause, ha, hb]
  cases search updatePattern t with
  | none => exact fun hclause _ => hclause
  | some found =>
    intro hitems hitems'
    exact (parseSet_blend (hblend.str found 2) (hitems.trans hitems'.symm)).trans hitems

theorem columns_insert (sql : Bytes) (m : Match) : (parseInsert sql m).columns =
    if m.str 2 sql ≠ [] then names (upper (m.str 2 sql)) else [str "id", str "name", str "email"] := by
  have hempty : upper (m.str 2 sql) ≠ [] ↔ m.str 2 sql ≠ [] := by simp [upper]
  simp only [parseInsert, str_upper, names]
  by_cases h : m.str 2 sql ≠ []
  · rw [if_pos h, if_pos (hempty.2 h)]
  · rw [if_neg h, if_neg fun h' => h (hempty.1 h')]

/-- With the keywords in capitals the value list is the one the text has. -/
theorem valueList_capitals (h : search insertPattern (upper sql) = some m) :
    valueList (capitals m sql) = some (m.str 3 sql) := by
  rw [valueList, search_capitals keyed_insertPattern h, Option.map_some,
    (respelled_capitals (classified_insert h)).str (classified_insert h)]

theorem setClause_capitals (hu : IsUpdate sql) (h : search updatePattern (upper sql) = some m) :
    setClause (capitals m sql) = some (m.str 2 sql) := by
  rw [setClause, search_capitals keyed_updatePattern h, Option.map_some,
    (respelled_capitals (classified_update hu h)).str (classified_update hu h)]

/-- A statement of which only one part depends on the spelling means the same in every spelling exactly if that part is
everywhere what it is with the keywords in capitals. -/
theorem meaning_iff {β : Type} {parsed : Bytes → SqlStatement} {part : Bytes → β} {b : β} (hm : classified sql = some m)
    (hparse : ∀ sql', Respelled sql sql' → parse sql' = some (parsed sql'))
    (hsame : ∀ sql', Respelled sql sql' → ((parsed sql).SameMeaning (parsed sql') ↔ part sql' = part sql))
    (hcapitals : part (capitals m sql) = b) :
    (∀ sql', Respelled sql sql' → ∃ stmt', parse sql' = some stmt' ∧ (parsed sql).SameMeaning stmt') ↔
      ∀ sql', Respelled sql sql' → part sql' = b := by
  have hmeaning : (∀ sql', Respelled sql sql' → ∃ stmt', parse sql' = some stmt' ∧ (parsed sql).SameMeaning stmt') ↔
      ∀ sql', Respelled sql sql' → part sql' = part sql := by
    refine forall_congr' fun sql' => forall_congr' fun hr => ?_
    rw [hparse sql' hr, ← hsame sql' hr]
    simp
  rw [hmeaning]
  constructor
  · intro hall sql' hr
    rw [hall sql' hr, ← hall _ (respelled_capitals hm), hcapitals]
  · intro hall sql' hr
    rw [hall sql' hr, hall sql (.refl sql)]

/-- An INSERT means the same in every spelling exactly if every spelling has the values of the list. -/
theorem insert_meaning_iff (h : search insertPattern (upper sql) = some m) :
    (∀ sql', Respelled sql sql' → ∃ stmt', parse sql' = some stmt' ∧ (parseInsert sql m).SameMeaning stmt') ↔
      ∀ sql', Respelled sql sql' → ListRead sql' (m.str 3 sql) := by
  have hlist : (parseInsert (capitals m sql) m).values = parseValues (m.str 3 sql) := by
    rw [parseInsert_values, valueList_capitals h]
    rfl
  simp only [listRead_iff, ← parseInsert_values _ m]
  refine @meaning_iff sql m _ (fun sql' => parseInsert sql' m) (fun sql' => (parseInsert sql' m).values) _ (classified_insert h) ?_ ?_ hlist
  · intro sql' hr
    exact parse_insert (by rw [hr.upper, h])
  · intro sql' hr
    have htable := hr.str (classified_insert h) 1
    simp only [SqlStatement.SameMeaning, parseInsert, SqlStatement.mk.injEq, hr.upper, htable, and_true, true_and]

/-- And an UPDATE, if every spelling has the SET list. -/
theorem update_meaning_iff (hu : IsUpdate sql) (h : search updatePattern (upper sql) = some m) :
    (∀ sql', Respelled sql sql' → ∃ stmt', parse sql' = some stmt' ∧ (parseUpdate sql m).SameMeaning stmt') ↔
      ∀ sql', Respelled sql sql' → SetRead sql' (m.str 2 sql) := by
  have hlist : setItems (capitals m sql) = parseSet (m.str 2 sql) := by
    rw [setItems, setClause_capitals hu h]
    rfl
  simp only [setRead_iff]
  refine @meaning_iff sql m _ (fun sql' => parseUpdate sql' m) setItems _ (classified_update hu h) ?_ ?_ hlist
  · intro sql' hr
    refine parse_update ⟨?_, ?_, ?_, ?_⟩ (by rw [hr.upper, h]) <;> rw [hr.upper]
    exacts [hu.noInsert, hu.noCreate, hu.noSelect, hu.update]
  · intro sql' hr
    have htable := hr.str (classified_update hu h) 1
    obtain ⟨hcols, hvals⟩ := parseUpdate_items sql m
    obtain ⟨hcols', hvals'⟩ := parseUpdate_items sql' m
    have hparts : (parseUpdate sql m).SameMeaning (parseUpdate sql' m) ↔
        (parseUpdate sql' m).columns = (parseUpdate sql m).columns ∧
          (parseUpdate sql' m).values = (parseUpdate sql m).values := by
      simp only [SqlStatement.SameMeaning, parseUpdate, SqlStatement.mk.injEq, hr.upper, htable, and_true, true_and]
    rw [hparts, hcols, hvals, hcols', hvals']
    constructor
    · rintro ⟨hfst, hsnd⟩
      rw [← List.zip_unzip (setItems sql'), ← List.zip_unzip (setItems sql), List.unzip_eq_map, List.unzip_eq_map]
      exact congrArg₂ List.zip hfst hsnd
    · intro he
      rw [he]
      exact ⟨rfl, rfl⟩

/-- An INSERT is spelled as it is written exactly if its column names have no small letters. -/
theorem spelled_insert_iff (sql : Bytes) (m : Match) :
    Spelled sql m (parseInsert sql m) ↔ ∀ name ∈ names (m.str 2 sql), ∀ c ∈ name, isLower c = false := by
  have hcols : (parseInsert sql m).columns = writtenColumns sql m ↔
      ∀ name ∈ names (m.str 2 sql), ∀ c ∈ name, isLower c = false := by
    rw [columns_insert, writtenColumns]
    by_cases h : m.str 2 sql ≠ []
    · rw [if_pos h, if_pos h, names_upper_eq_iff]
    · rw [if_neg h, if_neg h, not_not.1 h]
      simp [names, findAll, findAllFrom]
  rw [← hcols]
  refine ⟨fun h => h.columns rfl, fun h => ⟨fun _ => rfl, ?_, fun _ => h, ?_, ?_, ?_⟩⟩
  iterate 3
    intro hother
    cases hother
  intro v hv
  rw [parseInsert_values, valueList] at hv
  cases hs : search insertPattern sql with
  | none =>
    rw [hs] at hv
    cases hv
  | some original =>
    rw [hs] at hv
    exact (parseValues_string hv).trans (str_within original 3 sql)

/-- And an UPDATE, if its WHERE text has none. -/
theorem spelled_update_iff (sql : Bytes) (m : Match) :
    Spelled sql m (parseUpdate sql m) ↔ ∀ c ∈ m.str 3 sql, isLower c = false := by
  have hwhere : (parseUpdate sql m).whereClause = m.str 3 sql ↔ ∀ c ∈ m.str 3 sql, isLower c = false := by
    rw [← upper_eq_self_iff]
    simp only [parseUpdate, str_upper]
    cases hm : m.matched 3 with
    | true => rfl
    | false =>
      have hnil : m.str 3 sql = [] := by
        rw [Match.matched, Option.isSome_eq_false_iff, Option.isNone_iff_eq_none] at hm
        rw [Match.str, hm]
      rw [hnil]
      exact iff_of_true rfl rfl
  obtain ⟨hcols, hvals⟩ := parseUpdate_items sql m
  have hitems : ∀ p ∈ setItems sql, p.1 <:+: sql ∧ ∀ v, p.2 = .string v → v <:+: sql := by
    intro p hp
    rw [setItems, setClause] at hp
    cases hs : search updatePattern sql with
    | none =>
      rw [hs] at hp
      cases hp
    | some original =>
      rw [hs] at hp
      obtain ⟨hname, hvalue⟩ := parseSet_within (c := p.1) (v := p.2) hp
      exact ⟨hname.trans (str_within original 2 sql), fun v hv => (hvalue v hv).trans (str_within original 2 sql)⟩
  rw [← hwhere]
  refine ⟨fun h => h.whereText rfl, fun h => ⟨fun _ => rfl, ?_, ?_, fun _ => h, fun _ c hc => ?_, fun v hv => ?_⟩⟩
  iterate 2
    intro hother
    cases hother
  · rw [hcols] at hc
    obtain ⟨p, hp, rfl⟩ := List.mem_map.1 hc
    exact (hitems p hp).1
  · rw [hvals] at hv
    obtain ⟨p, hp, hpv⟩ := List.mem_map.1 hv
    exact (hitems p hp).2 v hpv

/-- A SELECT and a CREATE TABLE have nothing of the upper-cased text, and nothing of a second search. -/
theorem faithful_of_other (hi : search insertPattern (upper sql) = none) (hu : ¬ IsUpdate sql) : Faithful sql := by
  intro stmt m hparse hm
  cases hc : search createPattern (upper sql) with
  | some m' =>
    have hclass : classified sql = some m' := by rw [classified, hi, hc]; rfl
    rw [hclass, Option.some.injEq] at hm
    subst hm
    simp only [parse, hi, hc, Option.some.injEq] at hparse
    subst hparse
    refine ⟨⟨fun h => absurd rfl h, fun _ => rfl, ?_, ?_, ?_, fun v hv => by cases hv⟩, fun sql' hr => ?_⟩
    iterate 3
      intro hother
      cases hother
    refine ⟨_, by simp only [parse, hr.upper, hi, hc]; rfl, ?_⟩
    simp only [SqlStatement.SameMeaning, hr.str hclass]
  | none =>
    cases hs : search selectPattern (upper sql) with
    | some m' =>
      have hclass : classified sql = some m' := by rw [classified, hi, hc, hs]; rfl
      rw [hclass, Option.some.injEq] at hm
      subst hm
      simp only [parse, hi, hc, hs, Option.some.injEq] at hparse
      subst hparse
      refine ⟨⟨fun _ => rfl, ?_, ?_, ?_, ?_, fun v hv => by cases hv⟩, fun sql' hr => ?_⟩
      iterate 4
        intro hother
        cases hother
      refine ⟨_, by simp only [parse, hr.upper, hi, hc, hs]; rfl, ?_⟩
      simp only [SqlStatement.SameMeaning, hr.str hclass]
    | none =>
      cases hup : search updatePattern (upper sql) with
      | some m' =>
        refine absurd ⟨?_, ?_, ?_, ?_⟩ hu
        · exact search_eq_none_iff.1 hi
        · exact search_eq_none_iff.1 hc
        · exact search_eq_none_iff.1 hs
        · rw [← search_isSome, hup]
          rfl
      | none =>
        simp only [parse, hi, hc, hs, hup] at hparse
        cases hparse

end

/-- **Case does not matter exactly where it cannot**: a SELECT or CREATE TABLE is faithful, an INSERT or UPDATE where it is
`CaseBlind`. -/
theorem faithful_iff (sql : Bytes) : Faithful sql ↔ CaseBlind sql := by
  cases hi : search insertPattern (upper sql) with
  | some m =>
    have hno : ¬ IsUpdate sql := fun hu => by
      have hnone := search_eq_none_iff.2 hu.noInsert
      rw [hi] at hnone
      cases hnone
    have hfaithful : Faithful sql ↔ Spelled sql m (parseInsert sql m) ∧
        ∀ sql', Respelled sql sql' → ∃ stmt', parse sql' = some stmt' ∧ (parseInsert sql m).SameMeaning stmt' := by
      rw [Faithful, parse_insert hi, classified_insert hi]
      simp
    rw [hfaithful, spelled_insert_iff, insert_meaning_iff hi, forall_listRead_iff hi]
    constructor
    · intro h
      refine ⟨fun m' hm' => ?_, fun hu => absurd hu hno⟩
      rw [hi, Option.some.injEq] at hm'
      exact hm' ▸ h
    · intro h
      exact h.insert m hi
  | none =>
    have hnoInsert : ∀ m, search insertPattern (upper sql) ≠ some m := by simp [hi]
    by_cases hu : IsUpdate sql
    · obtain ⟨m, hm⟩ := Option.isSome_iff_exists.1 (search_isSome.2 hu.update)
      have hfaithful : Faithful sql ↔ Spelled sql m (parseUpdate sql m) ∧
          ∀ sql', Respelled sql sql' → ∃ stmt', parse sql' = some stmt' ∧ (parseUpdate sql m).SameMeaning stmt' := by
        rw [Faithful, parse_update hu hm, classified_update hu hm]
        simp
      rw [hfaithful, spelled_update_iff, update_meaning_iff hu hm, forall_setRead_iff hu hm]
      constructor
      · intro h
        refine ⟨fun m' hm' => absurd hm' (hnoInsert m'), fun _ m' hm' => ?_⟩
        rw [hm, Option.some.injEq] at hm'
        exact hm' ▸ h
      · intro h
        exact h.update hu m hm
    · exact iff_of_true (faithful_of_other hi hu) ⟨fun m hm => absurd hm (hnoInsert m), fun hu' => absurd hu' hu⟩

instance (sql list : Bytes) : Decidable (ListRead sql list) := decidable_of_iff _ listRead_iff.symm

instance (sql clause : Bytes) : Decidable (SetRead sql clause) := decidable_of_iff _ setRead_iff.symm

/-- The condition is computed from the text. -/
instance (sql : Bytes) : Decidable (CaseBlind sql) :=
  decidable_of_iff ((∀ m ∈ search insertPattern (upper sql), (∀ name ∈ names (m.str 2 sql), ∀ c ∈ name, isLower c = false) ∧
      ∀ sql' ∈ m.spellings insertWords sql, ListRead sql' (m.str 3 sql)) ∧
    (IsUpdate sql → ∀ m ∈ search updatePattern (upper sql), (∀ c ∈ m.str 3 sql, isLower c = false) ∧
      ∀ sql' ∈ m.spellings updateWords sql, SetRead sql' (m.str 2 sql)))
    ⟨fun h => ⟨h.1, h.2⟩, fun h => ⟨h.insert, h.update⟩⟩

-- nothing is set
example : CaseBlind (str "UPDATE t SET a=") := by decide +kernel

/-- An INSERT as the tests write it, the same in small letters, and an UPDATE by key. -/
def users : Bytes := str "INSERT INTO users (id, name) VALUES (1, 'Bob')"

def usersSmall : Bytes := str "insert into users (id, name) values (1, 'Bob')"

def rename : Bytes := str "UPDATE users SET name='Al' WHERE id='Bob'"

/-- The names lose their case, the values are lost in small letters, and the key loses its case. -/
theorem not_faithful : Respelled usersSmall users ∧
    (parse users).map (fun stmt => (stmt.columns, stmt.values)) =
      some ([str "ID", str "NAME"], [.int64 1, .string (str "Bob")]) ∧
    (parse usersSmall).map (fun stmt => (stmt.columns, stmt.values)) = some ([str "ID", str "NAME"], []) ∧
    (parse rename).map SqlStatement.whereClause = some (str "ID='BOB'") ∧
    ¬ Faithful users ∧ ¬ Faithful usersSmall ∧ ¬ Faithful rename := by
  have hrespelled : Respelled usersSmall users := by
    have hcaps : (classified usersSmall).map (fun m => capitals m usersSmall) = some users := by decide
    obtain ⟨m, hm, hcaps⟩ := Option.map_eq_some_iff.1 hcaps
    rw [← hcaps]
    exact respelled_capitals hm
  have hbig : (parse users).map (fun stmt => (stmt.columns, stmt.values)) =
      some ([str "ID", str "NAME"], [.int64 1, .string (str "Bob")]) := by decide
  have hsmall : (parse usersSmall).map (fun stmt => (stmt.columns, stmt.values)) = some ([str "ID", str "NAME"], []) := by
    decide
  have hkey : (parse rename).map (fun stmt => (stmt.type, stmt.whereClause)) = some (.update, str "ID='BOB'") := by
    decide
  refine ⟨hrespelled, hbig, hsmall, ?_, ?_, ?_, ?_⟩
  · obtain ⟨stmt, hstmt, hwhere⟩ := Option.map_eq_some_iff.1 hkey
    rw [hstmt]
    exact congrArg some (Prod.mk.inj hwhere).2
  · -- the columns are ID and NAME, and id and name are written
    intro h
    have hwritten : (classified users).map (fun m => writtenColumns users m) = some [str "id", str "name"] := by decide
    have htype : (parse users).map SqlStatement.type = some .insert := by decide
    obtain ⟨stmt, hstmt, hparts⟩ := Option.map_eq_some_iff.1 hbig
    obtain ⟨m, hm, hnames⟩ := Option.map_eq_some_iff.1 hwritten
    rw [hstmt, Option.map_some, Option.some.injEq] at htype
    have hcols := (h stmt m hstmt hm).1.columns htype
    rw [hnames, (Prod.mk.inj hparts).1] at hcols
    exact absurd hcols (by decide)
  · -- in capitals it has two values
    intro h
    obtain ⟨stmt, hstmt, hparts⟩ := Option.map_eq_some_iff.1 hsmall
    obtain ⟨stmt', hstmt', hparts'⟩ := Option.map_eq_some_iff.1 hbig
    obtain ⟨m, hm⟩ : ∃ m, classified usersSmall = some m := Option.isSome_iff_exists.1 (by decide)
    obtain ⟨other, hother, hsame⟩ := (h stmt m hstmt hm).2 users hrespelled
    rw [hstmt', Option.some.injEq] at hother
    subst hother
    have hvalues := congrArg SqlStatement.values hsame
    rw [(Prod.mk.inj hparts).2] at hvalues
    exact absurd ((Prod.mk.inj hparts').2.symm.trans hvalues) (by decide)
  · intro h
    have hwritten : (classified rename).map (fun m => m.str 3 rename) = some (str "id='Bob'") := by decide
    obtain ⟨stmt, hstmt, hparts⟩ := Option.map_eq_some_iff.1 hkey
    obtain ⟨m, hm, hclause⟩ := Option.map_eq_some_iff.1 hwritten
    have hwhere := (h stmt m hstmt hm).1.whereText (Prod.mk.inj hparts).1
    rw [hclause, (Prod.mk.inj hparts).2] at hwhere
    exact absurd hwhere (by decide)

end SqlParser

end OriginDB
