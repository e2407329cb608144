import OriginDB.Lib.Access
import OriginDB.Sql.SetList
/-!
# What a SQL text makes the engine look at (`sql_engine.cpp:32-64, 106-127, 227-257, 316-476`)

A statement is classified on the upper-cased text, and its values come from a second search in the text itself; so they
may be missing although the classification succeeded. Then the code asks for what is not there: `ExecuteInsert` for the
first of no values, `Parse` for the first character of a SET value that was nothing but blanks. The exceptions of
`stod` and `stoll` never leave `Parse`, and its `substr` never throws (`readStatement_eq`).

| here | there |
| --- | --- |
| `readNumber`, `readValue` | `std::stod`, `std::stoll` and the `catch (...)` around them (`:370-378`, `:455-463`) |
| `originalText`            | `sql.substr(m.position(group), m.length(group))` (`:326`) |
| `quoted`                  | `front() == '\''` and `back() == '\''` (`:254`, `:449`) |
| `Access.front`            | `stmt.values[0]` (`:127`) |
-/
namespace OriginDB

open JsonDoc ByteCodec Regex Pattern

namespace SqlParser

/-! ## Parsing, with every access and exception -/

/-- `std::string::substr`, which throws where the position is past the end. -/
def substr (s : Bytes) (pos len : Nat) : Access Bytes :=
  if pos ≤ s.length then .value ((s.drop pos).take len) else .threw

def originalText (sql : Bytes) (m : Match) (n : Nat) : Access Bytes :=
  match m.groups.lookup n with
  | some (pos, len) => substr sql pos len
  | none => .value []

def readNumber (value : Bytes) : Access Value :=
  if value.contains 46 then do return .double (← .ofOption (Numbers.stod value))
  else do return .int64 (← .ofOption (Numbers.stoll value))

def readValue (value : Bytes) : Access Value := (readNumber value).catching (.value (.string value))

def readValues (values : Bytes) : Access (List Value) :=
  (findAll valuePattern values).mapM fun m =>
    if m.matched 1 then .value (.string (m.str 1 values)) else readValue (m.str 2 values)

/-- A quote on both sides; what comes second is not asked where the first is none. -/
def quoted (text : Bytes) : Access Bool := do
  if (← .front text) = 39 then return (← .back text) = 39 else return false

/-- The text without its blanks on either side (sql_engine.cpp:445-446). -/
def trimBlanks (text : Bytes) : Bytes := ((text.dropWhile isBlank).reverse.dropWhile isBlank).reverse

def readSetValue (text : Bytes) : Access Value := do
  let value := trimBlanks text
  if ← quoted value then return .string (← substr value 1 (value.length - 2)) else readValue value

def readSet (clause : Bytes) : Access (List (Bytes × Value)) :=
  (findAll setPattern clause).mapM fun m => do return (m.str 1 clause, ← readSetValue (m.str 2 clause))

def readInsert (sql : Bytes) (m : Match) : Access SqlStatement := do
  let table ← originalText sql m 1
  let values ← match search insertPattern sql with
    | some original => readValues (original.str 3 sql)
    | none => .value []
  return { parseInsert sql m with tableName := table, values := values }

def readUpdate (sql : Bytes) (m : Match) : Access SqlStatement := do
  let table ← originalText sql m 1
  let set ← match search updatePattern sql with
    | some original => readSet (original.str 2 sql)
    | none => .value []
  return { parseUpdate sql m with tableName := table, columns := set.map Prod.fst, values := set.map Prod.snd }

/-- `SqlParser::Parse`. -/
def readStatement (sql : Bytes) : Access (Option SqlStatement) :=
  match search insertPattern (upper sql) with
  | some m => some <$> readInsert sql m
  | none =>
    match search createPattern (upper sql) with
    | some m => do
      return some { type := .createTable, tableSchema := ⟨← originalText sql m 1, defaultColumns, [str "id"]⟩, rawSql := sql }
    | none =>
      match search selectPattern (upper sql) with
      | some m => do return some { type := .select, tableName := ← originalText sql m 1, rawSql := sql }
      | none =>
        match search updatePattern (upper sql) with
        | some m => some <$> readUpdate sql m
        | none => .value none

/-! ## What it comes to -/

section
variable {sql text : Bytes} {m : Match} {p : Pattern}

theorem readValue_eq (value : Bytes) : readValue value = .value (parseValue value) := by
  rw [readValue, readNumber, parseValue]
  by_cases hdot : 46 ∈ value
  · rw [if_pos (by simpa using hdot), if_pos hdot]
    cases Numbers.stod value <;> rfl
  · rw [if_neg (by simpa using hdot), if_neg hdot]
    cases Numbers.stoll value <;> rfl

theorem readValues_eq (values : Bytes) : readValues values = .value (parseValues values) := by
  have hall : ∀ m : Match, (if m.matched 1 then .value (.string (m.str 1 values)) else readValue (m.str 2 values)) =
      if True then Access.value (if m.matched 1 then .string (m.str 1 values) else parseValue (m.str 2 values))
        else .nowhere := by
    intro m
    rw [readValue_eq, if_pos trivial]
    split <;> rfl
  rw [readValues, Access.mapM_guarded hall, if_pos fun _ _ => trivial]
  rfl

/-- A position that was found is one of the text, since the upper-cased text is as long. -/
theorem originalText_eq (h : search p (upper sql) = some m) (n : Nat) : originalText sql m n = .value (m.str n sql) := by
  rw [originalText, Match.str]
  cases hl : m.groups.lookup n with
  | none => rfl
  | some g =>
    obtain ⟨pos, len⟩ := g
    obtain ⟨before, after, hgroups, -⟩ := List.lookup_eq_some_iff.1 hl
    have hpos : pos ≤ (upper sql).length := pos_le_of_search h (n, pos, len) (by rw [hgroups]; simp)
    rw [upper, List.length_map] at hpos
    simp only [substr, if_pos hpos]

theorem quoted_eq (h : text ≠ []) :
    quoted text = .value (decide (text.head? = some 39 ∧ text.getLast? = some 39)) := by
  obtain ⟨c, rest, rfl⟩ := List.exists_cons_of_ne_nil h
  have hback : Access.back (c :: rest) = .value ((c :: rest).getLast h) := by
    rw [Access.back, List.getLast?_eq_some_getLast h]
  rw [quoted, Access.front_cons, Access.value_bind, hback, List.getLast?_eq_some_getLast h]
  by_cases hc : c = 39
  · simp [hc]
  · simp [hc]

theorem substr_one (h : text ≠ []) (len : Nat) : substr text 1 len = .value ((text.drop 1).take len) :=
  if_pos (List.length_pos_of_ne_nil h)

/-- A SET value is read where something is left of it. -/
theorem readSetValue_eq (text : Bytes) :
    readSetValue text = if trimBlanks text ≠ [] then .value (parseSetValue text) else .nowhere := by
  by_cases h : trimBlanks text ≠ []
  · rw [if_pos h, readSetValue, quoted_eq h, Access.value_bind, substr_one h, readValue_eq, parseSetValue]
    by_cases hq : (trimBlanks text).head? = some 39 ∧ (trimBlanks text).getLast? = some 39
    · rw [if_pos (by simpa using hq)]
      exact congrArg Access.value (if_pos hq).symm
    · rw [if_neg (by simpa using hq)]
      exact congrArg Access.value (if_neg hq).symm
  · rw [if_neg h, readSetValue]
    rw [not_not.1 h]
    rfl

theorem readSet_eq (clause : Bytes) : readSet clause =
    if ∀ m ∈ findAll setPattern clause, trimBlanks (m.str 2 clause) ≠ [] then .value (parseSet clause) else .nowhere := by
  refine Access.mapM_guarded (fun m => ?_) _
  rw [readSetValue_eq]
  by_cases h : trimBlanks (m.str 2 clause) ≠ []
  · rw [if_pos h, if_pos h]
    rfl
  · rw [if_neg h, if_neg h]
    rfl

end

/-! ## When everything is there -/

/-- The value list of an INSERT, where the search in the text itself finds it. -/
def valueList (sql : Bytes) : Option Bytes := (search insertPattern sql).map (Match.str · 3 sql)

/-- The SET list of an UPDATE, likewise. -/
def setClause (sql : Bytes) : Option Bytes := (search updatePattern sql).map (Match.str · 2 sql)

structure IsUpdate (sql : Bytes) : Prop where
  noInsert : ¬ insertPattern.Occurs (upper sql)
  noCreate : ¬ createPattern.Occurs (upper sql)
  noSelect : ¬ selectPattern.Occurs (upper sql)
  update : updatePattern.Occurs (upper sql)

instance (sql : Bytes) : Decidable (IsUpdate sql) :=
  decidable_of_iff (¬ insertPattern.Occurs (upper sql) ∧ ¬ createPattern.Occurs (upper sql) ∧
    ¬ selectPattern.Occurs (upper sql) ∧ updatePattern.Occurs (upper sql))
    ⟨fun h => ⟨h.1, h.2.1, h.2.2.1, h.2.2.2⟩, fun h => ⟨h.noInsert, h.noCreate, h.noSelect, h.update⟩⟩

/-- Nothing but white space, a space or a tab last. -/
def Dangling (value : Bytes) : Prop := (∀ c ∈ value, isSpace c = true) ∧ ∃ c, value.getLast? = some c ∧ isBlank c = true

/-- An INSERT has a value in its list, and no item of a SET list leaves a space or a tab for its value. -/
structure Complete (sql : Bytes) : Prop where
  values : insertPattern.Occurs (upper sql) → ∃ list, valueList sql = some list ∧ ∃ c ∈ list, c ≠ 44 ∧ isSpace c = false
  set : IsUpdate sql → ∀ clause, setClause sql = some clause →
    ∀ item ∈ clause.splitOn 44, ∀ value, itemValue item = some value → ¬ Dangling value

section
variable {sql : Bytes}

theorem trimBlanks_eq_nil {text : Bytes} : trimBlanks text = [] ↔ ∀ c ∈ text, isBlank c = true := by
  rw [trimBlanks, List.reverse_eq_nil_iff, List.dropWhile_eq_nil_iff]
  constructor
  · intro h
    have hnil : text.dropWhile isBlank = [] := by
      by_contra hne
      obtain ⟨c, rest, hc⟩ := List.exists_cons_of_ne_nil hne
      have hblank := h c (by rw [hc]; simp)
      rw [leaves_dropWhile text c rest hc] at hblank
      cases hblank
    exact List.dropWhile_eq_nil_iff.1 hnil
  · intro h c hc
    exact h c ((List.dropWhile_suffix _).subset (List.mem_reverse.1 hc))

theorem isSpace_of_isBlank {c : UInt8} (h : isBlank c = true) : isSpace c = true := by
  have hall := forall_byte (p := fun c => !isBlank c || isSpace c) (by decide +kernel) c
  simpa [h] using hall

theorem trimBlanks_setText {value text : Bytes} (h : setText value = some text) :
    trimBlanks text = [] ↔ Dangling value := by
  rw [trimBlanks_eq_nil]
  rw [setText] at h
  split at h
  · rename_i hnil
    obtain ⟨c, hlast, rfl⟩ := Option.map_eq_some_iff.1 h
    have hspace : ∀ d ∈ value, isSpace d = true := List.dropWhile_eq_nil_iff.1 hnil
    simp only [List.mem_singleton, forall_eq, Dangling, hlast, Option.some.injEq, exists_eq_left']
    exact ⟨fun hc => ⟨hspace, hc⟩, fun h => h.2⟩
  · rename_i hne
    cases h
    refine ⟨fun hblank => ?_, fun hdang => absurd (List.dropWhile_eq_nil_iff.2 hdang.1) hne⟩
    obtain ⟨c, rest, hc⟩ := List.exists_cons_of_ne_nil hne
    have hspace := isSpace_of_isBlank (hblank c (by rw [hc]; simp))
    rw [leaves_dropWhile value c rest hc] at hspace
    cases hspace

/-- `set_regex` finds no blank value exactly where no item dangles. -/
theorem forall_findAll_iff (clause : Bytes) : (∀ m ∈ findAll setPattern clause, trimBlanks (m.str 2 clause) ≠ []) ↔
    ∀ item ∈ clause.splitOn 44, ∀ value, itemValue item = some value → ¬ Dangling value := by
  have htexts : (∀ m ∈ findAll setPattern clause, trimBlanks (m.str 2 clause) ≠ []) ↔
      ∀ text ∈ setTexts clause, trimBlanks text ≠ [] := by
    rw [← findAll_setPattern]
    simp
  rw [htexts]
  simp only [setTexts, List.mem_filterMap]
  constructor
  · intro h item hitem value hvalue hdang
    cases htext : setText value with
    | none =>
      -- nothing follows the `=`
      rw [setText] at htext
      obtain ⟨c, hc, -⟩ := hdang.2
      split at htext
      · rw [hc] at htext
        cases htext
      · cases htext
    | some text =>
      exact h text ⟨item, hitem, by rw [hvalue, Option.bind_some, htext]⟩ ((trimBlanks_setText htext).2 hdang)
  · rintro h text ⟨item, hitem, hbind⟩ hnil
    obtain ⟨value, hvalue, htext⟩ := Option.bind_eq_some_iff.1 hbind
    exact h item hitem value hvalue ((trimBlanks_setText htext).1 hnil)

/-- Every value list but those of commas and white space has a value. -/
theorem parseValues_eq_nil {list : Bytes} : parseValues list = [] ↔ ∀ c ∈ list, c ≠ 44 → isSpace c = true := by
  have hoccurs : valuePattern.Occurs list ↔ ∃ c ∈ list, c ≠ 44 ∧ isSpace c = false := by
    constructor
    · rintro ⟨l, w, r, rfl, hm⟩
      rcases hm with hm | hm
      · obtain ⟨u, v, rfl, hu, -⟩ := hm
        rw [matches_lit] at hu
        have hmem : (39 : UInt8) ∈ u := by rw [hu]; exact List.mem_cons_self
        exact ⟨39, by simp [hmem], by decide, by decide⟩
      · rw [matches_group, matches_plus] at hm
        obtain ⟨c, w, rfl⟩ := List.exists_cons_of_ne_nil hm.1
        have hc := hm.2 c (by simp)
        simp only [Bool.and_eq_true, decide_eq_true_eq, Bool.not_eq_true'] at hc
        exact ⟨c, by simp, hc⟩
    · rintro ⟨c, hc, hne, hspace⟩
      obtain ⟨l, r, rfl⟩ := List.append_of_mem hc
      refine ⟨l, [c], r, by simp, Or.inr ?_⟩
      rw [matches_group, matches_plus]
      refine ⟨by simp, fun d hd => ?_⟩
      rw [List.mem_singleton.1 hd]
      simp [hne, hspace]
  rw [parseValues, List.map_eq_nil_iff, findAll]
  cases hlen : list.length with
  | zero =>
    rw [List.eq_nil_of_length_eq_zero hlen]
    simp [findAllFrom]
  | succ n =>
    have hsearch : searchFrom valuePattern (list.take 0).reverse (list.drop 0) = search valuePattern list := rfl
    rw [findAllFrom, hsearch]
    cases hs : search valuePattern list with
    | none =>
      have hno : ¬ valuePattern.Occurs list := by
        rw [← search_isSome, hs]
        simp
      rw [hoccurs] at hno
      push Not at hno
      simpa using fun c hc hne => hno c hc hne
    | some m =>
      have hyes : valuePattern.Occurs list := by
        rw [← search_isSome, hs]
        rfl
      obtain ⟨c, hc, hne, hspace⟩ := hoccurs.1 hyes
      simp only [reduceCtorEq, false_iff]
      intro hall
      rw [hall c hc hne] at hspace
      cases hspace

end

/-! ## The outcome of parsing -/

/-- Each SET item that is read has a value. -/
def SetComplete (sql : Bytes) : Prop := IsUpdate sql → ∀ clause, setClause sql = some clause →
  ∀ m ∈ findAll setPattern clause, trimBlanks (m.str 2 clause) ≠ []

theorem setComplete_iff {sql : Bytes} : SetComplete sql ↔ (IsUpdate sql → ∀ clause, setClause sql = some clause →
    ∀ item ∈ clause.splitOn 44, ∀ value, itemValue item = some value → ¬ Dangling value) :=
  forall_congr' fun _ => forall_congr' fun clause => forall_congr' fun _ => forall_findAll_iff clause

section
variable {sql : Bytes} {m : Match}

theorem readInsert_eq (h : search insertPattern (upper sql) = some m) : readInsert sql m = .value (parseInsert sql m) := by
  rw [readInsert, originalText_eq h, Access.value_bind, parseInsert]
  cases search insertPattern sql with
  | none => rfl
  | some original =>
    simp only [readValues_eq, Access.value_bind]
    rfl

theorem readUpdate_eq (h : search updatePattern (upper sql) = some m) : readUpdate sql m =
    match search updatePattern sql with
    | some original =>
      if ∀ m ∈ findAll setPattern (original.str 2 sql), trimBlanks (m.str 2 (original.str 2 sql)) ≠ [] then
        .value (parseUpdate sql m)
      else .nowhere
    | none => .value (parseUpdate sql m) := by
  rw [readUpdate, originalText_eq h, Access.value_bind, parseUpdate]
  cases search updatePattern sql with
  | none => rfl
  | some original =>
    simp only [readSet_eq]
    by_cases hall : ∀ m ∈ findAll setPattern (original.str 2 sql), trimBlanks (m.str 2 (original.str 2 sql)) ≠ []
    · rw [if_pos hall, if_pos hall]
      rfl
    · rw [if_neg hall, if_neg hall]
      rfl

theorem search_eq_none_iff {p : Pattern} {s : Bytes} : search p s = none ↔ ¬ p.Occurs s := by
  rw [← search_isSome, Bool.not_eq_true, Option.isSome_eq_false_iff, Option.isNone_iff_eq_none]

/-- **What parsing comes to**: the statement where every SET item has a value, and otherwise an access to nothing. It
never throws. -/
theorem readStatement_eq (sql : Bytes) :
    (SetComplete sql → readStatement sql = .value (parse sql)) ∧ (¬ SetComplete sql → readStatement sql = .nowhere) := by
  have hcomplete : ¬ IsUpdate sql → SetComplete sql := fun hno hyes => absurd hyes hno
  rw [readStatement, parse]
  cases hi : search insertPattern (upper sql) with
  | some m =>
    have hset := hcomplete fun hu => by
      have hnone := search_eq_none_iff.2 hu.noInsert
      rw [hi] at hnone
      cases hnone
    refine ⟨fun _ => ?_, fun hno => absurd hset hno⟩
    simp only [readInsert_eq hi]
    rfl
  | none =>
    cases hc : search createPattern (upper sql) with
    | some m =>
      have hset := hcomplete fun hu => by
        have hnone := search_eq_none_iff.2 hu.noCreate
        rw [hc] at hnone
        cases hnone
      refine ⟨fun _ => ?_, fun hno => absurd hset hno⟩
      simp only [originalText_eq hc]
      rfl
    | none =>
      cases hs : search selectPattern (upper sql) with
      | some m =>
        have hset := hcomplete fun hu => by
          have hnone := search_eq_none_iff.2 hu.noSelect
          rw [hs] at hnone
          cases hnone
        refine ⟨fun _ => ?_, fun hno => absurd hset hno⟩
        simp only [originalText_eq hs]
        rfl
      | none =>
        cases hu : search updatePattern (upper sql) with
        | none =>
          have hset := hcomplete fun h => by
            have hno := search_eq_none_iff.1 hu
            exact hno h.update
          exact ⟨fun _ => rfl, fun hno => absurd hset hno⟩
        | some m =>
          have hupdate : IsUpdate sql := ⟨search_eq_none_iff.1 hi, search_eq_none_iff.1 hc, search_eq_none_iff.1 hs, by
            rw [← search_isSome, hu]
            rfl⟩
          simp only [readUpdate_eq hu]
          cases ho : search updatePattern sql with
          | none =>
            have hset : SetComplete sql := by
              intro _ clause hclause
              rw [setClause, ho] at hclause
              cases hclause
            exact ⟨fun _ => rfl, fun hno => absurd hset hno⟩
          | some original =>
            have hiff : SetComplete sql ↔
                ∀ m ∈ findAll setPattern (original.str 2 sql), trimBlanks (m.str 2 (original.str 2 sql)) ≠ [] := by
              rw [SetComplete, setClause, ho]
              simp [hupdate]
            simp only [hiff]
            refine ⟨fun h => ?_, fun h => ?_⟩
            · rw [if_pos h]
              rfl
            · rw [if_neg h]
              rfl

end

end SqlParser

namespace SqlEngine

open SqlParser

section
variable (env : Env) (maxLag : Nat) (io : Nat → Io)

/-- The key in a WHERE clause, with its quotes taken off (sql_engine.cpp:252-257). -/
def readKey (text : Bytes) : Access Bytes := do
  if ← quoted text then substr text 1 (text.length - 2) else return text

/-- `ExecuteUpdate`. -/
def lookUpdate (s : Store) (stmt : SqlStatement) : Executed :=
  match s.getTable stmt.tableName with
  | none => .returned (failed (str "Table not found: " ++ stmt.tableName)) s
  | some _ =>
    if stmt.whereClause = [] then
      .returned (failed (str "UPDATE requires WHERE clause to specify which rows to update")) s
    else match search wherePattern stmt.whereClause with
      | none => .returned (failed (str "Invalid WHERE clause format. Expected: column=value")) s
      | some m =>
        match readKey (m.str 2 stmt.whereClause) with
        | .nowhere => .undefined
        | .threw => .threw s
        | .value key =>
          match s.get stmt.tableName key with
          | none => .returned (failed (str "No row found with " ++ m.str 1 stmt.whereClause ++ str "=" ++ key)) s
          | some row =>
            match s.commit env maxLag (io 0)
                [⟨.update, stmt.tableName, { setColumns stmt.columns stmt.values row with key := key }⟩] with
            | .threw s => .threw s
            | .returned true s => .returned { success := true, rowsAffected := 1 } s
            | .returned false s => .returned (failed (str "Failed to update row")) s

/-- `Execute`; nothing in it catches an exception. -/
def look (s : Store) (sql : Bytes) : Executed :=
  match readStatement sql with
  | .nowhere => .undefined
  | .threw => .threw s
  | .value none => .returned (failed (str "Failed to parse SQL statement")) s
  | .value (some stmt) =>
    match stmt.type with
    | .createTable => executeCreateTable env s stmt
    | .insert => executeInsert env maxLag io s stmt
    | .select => .returned (executeSelect s stmt) s
    | .update => lookUpdate env maxLag io s stmt
    | .delete => .returned (failed (str "DELETE not implemented in prototype")) s

/-- No text crashes it: it never looks where there is nothing, and what parsing throws becomes a failure. -/
def Safe (s : Store) (sql : Bytes) : Prop :=
  look env maxLag io s sql ≠ .undefined ∧
  (readStatement sql = .threw → ∃ r s', look env maxLag io s sql = .returned r s' ∧ r.success = false)

end

/-! ## When it is safe -/

section
variable {env : Env} {maxLag : Nat} {io : Nat → Io} {s : Store} {stmt : SqlStatement} {sql : Bytes}

/-- The value `wherePattern` finds is never empty. -/
theorem where_ne_nil {m : Match} {clause : Bytes} (h : search wherePattern clause = some m) : m.str 2 clause ≠ [] := by
  have hplus : (Pattern.group 2 (plus true fun c => c ≠ 44 && !isSpace c)).Closes 2 (· ≠ []) :=
    ⟨rfl, fun l w r hm => (matches_plus.1 hm).1⟩
  have hcloses : wherePattern.Closes 2 (· ≠ []) := Or.inl (Or.inl (Or.inl (Or.inl hplus)))
  exact search_str hcloses h

theorem readKey_eq {text : Bytes} (h : text ≠ []) : readKey text =
    .value (if text.head? = some 39 ∧ text.getLast? = some 39 then (text.drop 1).take (text.length - 2) else text) := by
  rw [readKey, quoted_eq h, Access.value_bind, substr_one h]
  by_cases hq : text.head? = some 39 ∧ text.getLast? = some 39
  · rw [if_pos (by simpa using hq), if_pos hq]
  · rw [if_neg (by simpa using hq), if_neg hq]
    rfl

/-- The WHERE clause is always safe. -/
theorem lookUpdate_eq : lookUpdate env maxLag io s stmt = executeUpdate env maxLag io s stmt := by
  rw [lookUpdate, executeUpdate]
  cases s.getTable stmt.tableName with
  | none => rfl
  | some t =>
    by_cases hwhere : stmt.whereClause = []
    · simp only [hwhere, if_true]
    · simp only [hwhere, if_false]
      cases hm : search wherePattern stmt.whereClause with
      | none => rfl
      | some m =>
        have hkey := readKey_eq (where_ne_nil hm)
        dsimp only
        generalize readKey (m.str 2 stmt.whereClause) = key at hkey ⊢
        subst hkey
        rfl

/-- Where every SET item has a value, `Execute` is what it was taken for. -/
theorem look_eq (h : SetComplete sql) : look env maxLag io s sql = execute env maxLag io s sql := by
  rw [look, (readStatement_eq sql).1 h, execute]
  cases parse sql with
  | none => rfl
  | some stmt =>
    cases ht : stmt.type <;> simp only [ht, lookUpdate_eq]

theorem convertToUpdate_ne_undefined (table key : Bytes) (row : Row) :
    convertToUpdate env maxLag io s table key row ≠ .undefined := by
  unfold convertToUpdate
  split <;> simp

/-- `ExecuteInsert` looks for the first value before anything else. -/
theorem executeInsert_undefined_iff : executeInsert env maxLag io s stmt = .undefined ↔ stmt.values = [] := by
  unfold executeInsert
  cases stmt.values with
  | nil => simp
  | cons value values =>
    simp only [reduceCtorEq, iff_false]
    split
    · simp
    · split
      · simp
      · simp
      · split
        · exact convertToUpdate_ne_undefined _ _ _
        · exact convertToUpdate_ne_undefined _ _ _

theorem executeUpdate_ne_undefined : executeUpdate env maxLag io s stmt ≠ .undefined := by
  unfold executeUpdate
  split
  · simp
  · split
    · simp
    · split
      · simp
      · dsimp only
        split
        · simp
        · split <;> simp

theorem executeCreateTable_ne_undefined : executeCreateTable env s stmt ≠ .undefined := by
  unfold executeCreateTable
  split <;> simp

theorem execute_undefined_iff : execute env maxLag io s sql = .undefined ↔
    ∃ stmt, parse sql = some stmt ∧ stmt.type = .insert ∧ stmt.values = [] := by
  rw [execute]
  cases parse sql with
  | none => simp
  | some stmt =>
    cases ht : stmt.type <;> simp [ht, executeInsert_undefined_iff, executeUpdate_ne_undefined, executeCreateTable_ne_undefined]

/-- An INSERT without values: the text itself is no INSERT, or there is nothing in its list. -/
theorem insert_without_values_iff : (∃ stmt, parse sql = some stmt ∧ stmt.type = .insert ∧ stmt.values = []) ↔
    insertPattern.Occurs (upper sql) ∧
      ¬ ∃ list, valueList sql = some list ∧ ∃ c ∈ list, c ≠ 44 ∧ isSpace c = false := by
  rw [← search_isSome, parse]
  cases hi : search insertPattern (upper sql) with
  | some m =>
    simp only [Option.some.injEq, exists_eq_left', Option.isSome_some, true_and]
    have htype : (parseInsert sql m).type = .insert := rfl
    have hvalues : (parseInsert sql m).values = [] ↔
        ¬ ∃ list, valueList sql = some list ∧ ∃ c ∈ list, c ≠ 44 ∧ isSpace c = false := by
      rw [parseInsert, valueList]
      cases search insertPattern sql with
      | none => simp
      | some original =>
        simp only [parseValues_eq_nil, Option.map_some, Option.some.injEq, exists_eq_left']
        push Not
        simp
    rw [hvalues]
    exact and_iff_right htype
  | none =>
    simp only [Option.isSome_none, Bool.false_eq_true, false_and, iff_false]
    rintro ⟨stmt, hstmt, ht, -⟩
    split at hstmt
    · cases hstmt
      cases ht
    · split at hstmt
      · cases hstmt
        cases ht
      · split at hstmt
        · cases hstmt
          cases ht
        · cases hstmt

end

/-- **A text is safe exactly when it is complete.** -/
theorem safe_iff (env : Env) (maxLag : Nat) (io : Nat → Io) (s : Store) (sql : Bytes) :
    Safe env maxLag io s sql ↔ Complete sql := by
  by_cases hset : SetComplete sql
  · have hthrew : readStatement sql ≠ .threw := by
      rw [(readStatement_eq sql).1 hset]
      simp
    rw [Safe, look_eq hset, ne_eq, execute_undefined_iff, insert_without_values_iff]
    constructor
    · rintro ⟨hvalues, -⟩
      exact ⟨fun hins => by_contra fun hno => hvalues ⟨hins, hno⟩, setComplete_iff.1 hset⟩
    · intro h
      exact ⟨fun hno => hno.2 (h.values hno.1), fun ht => absurd ht hthrew⟩
  · have hlook : look env maxLag io s sql = .undefined := by
      rw [look, (readStatement_eq sql).2 hset]
    constructor
    · rintro ⟨hsafe, -⟩
      exact absurd hlook hsafe
    · intro h
      exact absurd (setComplete_iff.2 h.set) hset

/-- An INSERT that no value is read of. -/
def emptyInsert (sql : Bytes) : SqlStatement :=
  { type := .insert, tableName := str "t", columns := [str "id", str "name", str "email"], rawSql := sql }

theorem look_emptyInsert {sql : Bytes} (h : readStatement sql = .value (some (emptyInsert sql))) :
    look rowAEnv 100000 (fun _ => {}) { engine := emptyTable } sql = .undefined := by
  simp only [look, h, emptyInsert]
  exact executeInsert_undefined_iff.2 rfl

/-- Nothing between the parentheses; keywords in lower case; an item without a value. -/
theorem unsafe_texts :
    (look rowAEnv 100000 (fun _ => {}) { engine := emptyTable } (str "INSERT INTO t VALUES ()") = .undefined ∧
      ¬ Safe rowAEnv 100000 (fun _ => {}) { engine := emptyTable } (str "INSERT INTO t VALUES ()")) ∧
    (look rowAEnv 100000 (fun _ => {}) { engine := emptyTable } (str "insert into t values ('a')") = .undefined ∧
      ¬ Safe rowAEnv 100000 (fun _ => {}) { engine := emptyTable } (str "insert into t values ('a')")) ∧
    look rowAEnv 100000 (fun _ => {}) { engine := emptyTable } (str "UPDATE t SET a= , b=1 WHERE id=2") = .undefined ∧
      ¬ Safe rowAEnv 100000 (fun _ => {}) { engine := emptyTable } (str "UPDATE t SET a= , b=1 WHERE id=2") := by
  have hboth : ∀ {sql}, look rowAEnv 100000 (fun _ => {}) { engine := emptyTable } sql = .undefined →
      look rowAEnv 100000 (fun _ => {}) { engine := emptyTable } sql = .undefined ∧
        ¬ Safe rowAEnv 100000 (fun _ => {}) { engine := emptyTable } sql := fun h => ⟨h, fun hsafe => hsafe.1 h⟩
  have hnowhere : readStatement (str "UPDATE t SET a= , b=1 WHERE id=2") = .nowhere := by decide
  refine ⟨hboth (look_emptyInsert (by decide)), hboth (look_emptyInsert (by decide)), hboth ?_⟩
  rw [look, hnowhere]

end SqlEngine

end OriginDB
