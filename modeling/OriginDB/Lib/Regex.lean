import OriginDB.Lib.Bytes
/-!
# Backtracking regular expressions over bytes

Patterns of the kind a program writes down once: characters, sequences, ordered alternatives, groups, and
repetitions of a single character class. `run` lists every way a pattern can match at a place, in the
order in which a backtracking engine tries them, so the engine's answer is the first of the list.
`Matches` is what it means for a pattern to match a word, with what stands before and after it; the two
agree (`mem_run`, `exists_mem_run`), so whether there is a match never depends on the order.

Characters are classified as in the "C" locale.
-/
namespace Regex

open ByteCodec

/-! ## Characters -/

def isSpace (c : UInt8) : Bool := c = 32 || (9 ≤ c && c ≤ 13)

def isDigit (c : UInt8) : Bool := 48 ≤ c && c ≤ 57

def isUpper (c : UInt8) : Bool := 65 ≤ c && c ≤ 90

def isLower (c : UInt8) : Bool := 97 ≤ c && c ≤ 122

def isAlpha (c : UInt8) : Bool := isUpper c || isLower c

def isAlnum (c : UInt8) : Bool := isAlpha c || isDigit c

/-- The class `\w`. -/
def isWord (c : UInt8) : Bool := isAlnum c || c = 95

/-- The class `.`: no line feed and no carriage return. -/
def isDot (c : UInt8) : Bool := c ≠ 10 && c ≠ 13

def toUpper (c : UInt8) : UInt8 := if isLower c then c - 32 else c

def toLower (c : UInt8) : UInt8 := if isUpper c then c + 32 else c

/-- A fact about bytes is checked on each of them. -/
theorem forall_byte {p : UInt8 → Bool} (h : ∀ n : Fin 256, p (UInt8.ofFin n) = true) (c : UInt8) : p c = true :=
  h c.toFin

/-- A letter stays one in either case, and the classes do not tell it from its capital. -/
theorem case_of_byte (c : UInt8) : (isSpace (toUpper c) = isSpace c ∧ isDot (toUpper c) = isDot c ∧ isWord (toUpper c) = isWord c) ∧
    (toUpper (toLower c) = toUpper c ∧ toUpper (toUpper c) = toUpper c ∧ toLower (toUpper c) = toLower c) ∧
    (isLower c = true → isAlpha c = true ∧ isAlpha (toUpper c) = true) :=
  of_decide_eq_true (forall_byte (p := fun c => decide ((isSpace (toUpper c) = isSpace c ∧ isDot (toUpper c) = isDot c ∧
    isWord (toUpper c) = isWord c) ∧ (toUpper (toLower c) = toUpper c ∧ toUpper (toUpper c) = toUpper c ∧
    toLower (toUpper c) = toLower c) ∧ (isLower c = true → isAlpha c = true ∧ isAlpha (toUpper c) = true)))
    (by decide +kernel) c)

theorem isSpace_toUpper (c : UInt8) : isSpace (toUpper c) = isSpace c := (case_of_byte c).1.1

theorem isDot_toUpper (c : UInt8) : isDot (toUpper c) = isDot c := (case_of_byte c).1.2.1

theorem isWord_toUpper (c : UInt8) : isWord (toUpper c) = isWord c := (case_of_byte c).1.2.2

theorem toUpper_toLower (c : UInt8) : toUpper (toLower c) = toUpper c := (case_of_byte c).2.1.1

theorem toUpper_toUpper (c : UInt8) : toUpper (toUpper c) = toUpper c := (case_of_byte c).2.1.2.1

theorem toLower_toUpper (c : UInt8) : toLower (toUpper c) = toLower c := (case_of_byte c).2.1.2.2

/-- What is no letter is the capital of nothing else. -/
theorem toUpper_eq_iff {c x : UInt8} (hx : isAlpha x = false) : toUpper c = x ↔ c = x := by
  by_cases hc : isLower c = true
  · obtain ⟨halpha, hcapital⟩ := (case_of_byte c).2.2 hc
    refine iff_of_false ?_ ?_
    · rintro rfl
      rw [hcapital] at hx
      cases hx
    · rintro rfl
      rw [halpha] at hx
      cases hx
  · rw [toUpper, if_neg hc]

theorem isLower_toUpper (c : UInt8) : isLower (toUpper c) = false := by
  rw [toUpper]
  split
  · rename_i h
    simp only [isLower, Bool.and_eq_true, decide_eq_true_eq, Bool.and_eq_false_iff, decide_eq_false_iff_not,
      UInt8.le_iff_toNat_le, UInt8.reduceToNat] at h ⊢
    have hcapital : (c - 32).toNat = c.toNat - 32 :=
      UInt8.toNat_sub_of_le _ _ (by simp only [UInt8.le_iff_toNat_le, UInt8.reduceToNat]; omega)
    omega
  · rename_i h
    simpa using h

theorem not_isSpace_of_isWord {c : UInt8} (h : isWord c = true) : isSpace c = false := by
  simp only [isWord, isAlnum, isAlpha, isUpper, isLower, isDigit, isSpace, Bool.or_eq_true, Bool.and_eq_true, decide_eq_true_eq,
    Bool.or_eq_false_iff, Bool.and_eq_false_iff, decide_eq_false_iff_not, UInt8.le_iff_toNat_le, ← UInt8.toNat_inj,
    UInt8.reduceToNat] at *
  omega

theorem not_isWord_of_isSpace {c : UInt8} (h : isSpace c = true) : isWord c = false := by
  cases hw : isWord c with
  | false => rfl
  | true =>
    rw [not_isSpace_of_isWord hw] at h
    cases h

/-! ## Patterns -/

inductive Pattern where
  | empty
  | char (p : UInt8 → Bool)
  | seq (a b : Pattern)
  /-- `a|b`, tried in this order. -/
  | alt (a b : Pattern)
  /-- `[p]*`, or `[p]*?` when it is not greedy. -/
  | many (greedy : Bool) (p : UInt8 → Bool)
  /-- `( … )`, the group of this number. -/
  | group (n : Nat) (a : Pattern)
  /-- `$`. -/
  | atEnd
  /-- `\b`. -/
  | wordBoundary

namespace Pattern

def plus (greedy : Bool) (p : UInt8 → Bool) : Pattern := .seq (.char p) (.many greedy p)

def opt (a : Pattern) : Pattern := .alt a .empty

/-- These characters, one after the other. -/
def lit : Bytes → Pattern
  | [] => .empty
  | c :: s => .seq (.char fun x => x = c) (lit s)

/-- The same when case is ignored. -/
def litI : Bytes → Pattern
  | [] => .empty
  | c :: s => .seq (.char fun x => toLower x = toLower c) (litI s)

def all : List Pattern → Pattern
  | [] => .empty
  | [a] => a
  | a :: as => .seq a (all as)

end Pattern

open Pattern

/-! ## The engine -/

/-- Where the engine stands: what is behind it, last byte first, what is ahead, and the groups closed so
far, each with its number, position and length, the last one first. -/
structure Cursor where
  before : Bytes
  after : Bytes
  groups : List (Nat × Nat × Nat) := []
deriving DecidableEq

theorem Cursor.ext {c d : Cursor} (hb : c.before = d.before) (ha : c.after = d.after) (hg : c.groups = d.groups) :
    c = d := by
  cases c
  cases d
  cases hb
  cases ha
  cases hg
  rfl

/-- A word character on exactly one side. -/
def boundary (before after : Bytes) : Bool := before.head?.any isWord != after.head?.any isWord

/-- The ways to take characters of a class. -/
def runMany (greedy : Bool) (p : UInt8 → Bool) (groups : List (Nat × Nat × Nat)) : Bytes → Bytes → List Cursor
  | before, [] => [⟨before, [], groups⟩]
  | before, x :: after =>
    if p x then
      if greedy then runMany greedy p groups (x :: before) after ++ [⟨before, x :: after, groups⟩]
      else ⟨before, x :: after, groups⟩ :: runMany greedy p groups (x :: before) after
    else [⟨before, x :: after, groups⟩]

def run : Pattern → Cursor → List Cursor
  | .empty, c => [c]
  | .char p, c =>
    match c.after with
    | [] => []
    | x :: after => if p x then [⟨x :: c.before, after, c.groups⟩] else []
  | .seq a b, c => (run a c).flatMap (run b)
  | .alt a b, c => run a c ++ run b c
  | .many greedy p, c => runMany greedy p c.groups c.before c.after
  | .group n a, c => (run a c).map fun d =>
      { d with groups := (n, c.before.length, d.before.length - c.before.length) :: d.groups }
  | .atEnd, c => if c.after = [] then [c] else []
  | .wordBoundary, c => if boundary c.before c.after then [c] else []

/-- `std::smatch`: the whole match and its groups, as position and length. -/
structure Match where
  pos : Nat
  len : Nat
  groups : List (Nat × Nat × Nat)
deriving DecidableEq

/-- `m[n].matched`. -/
def Match.matched (m : Match) (n : Nat) : Bool := (m.groups.lookup n).isSome

/-- `m[n].str()` in the text that was matched; empty when the group did not take part. -/
def Match.str (m : Match) (n : Nat) (s : Bytes) : Bytes :=
  match m.groups.lookup n with
  | some (pos, len) => (s.drop pos).take len
  | none => []

/-- The match as a whole. -/
def Match.text (m : Match) (s : Bytes) : Bytes := (s.drop m.pos).take m.len

/-- `std::regex_match`: the first way to match the whole text. -/
def fullMatch (p : Pattern) (s : Bytes) : Option Match :=
  ((run p ⟨[], s, []⟩).find? fun d => d.after = []).map fun d => ⟨0, s.length, d.groups⟩

/-- `std::regex_search` from a place on: the first way at the first place where there is one. -/
def searchFrom (p : Pattern) : Bytes → Bytes → Option Match
  | before, after =>
    match run p ⟨before, after, []⟩ with
    | d :: _ => some ⟨before.length, d.before.length - before.length, d.groups⟩
    | [] =>
      match after with
      | [] => none
      | x :: after => searchFrom p (x :: before) after
termination_by structural _ after => after

def search (p : Pattern) (s : Bytes) : Option Match := searchFrom p [] s

/-- `std::sregex_iterator` for a pattern that matches no empty text: one match after the other. -/
def findAllFrom (p : Pattern) (s : Bytes) : Nat → Nat → List Match
  | 0, _ => []
  | fuel + 1, pos =>
    match searchFrom p (s.take pos).reverse (s.drop pos) with
    | none => []
    | some m => m :: findAllFrom p s fuel (m.pos + m.len)

def findAll (p : Pattern) (s : Bytes) : List Match := findAllFrom p s s.length 0

/-! ## What it means to match -/

/-- `w` matches, with `l` (last byte first) before it and `r` after it. -/
def Pattern.Matches : Pattern → Bytes → Bytes → Bytes → Prop
  | .empty, _, w, _ => w = []
  | .char p, _, w, _ => ∃ x, w = [x] ∧ p x = true
  | .seq a b, l, w, r => ∃ u v, w = u ++ v ∧ a.Matches l u (v ++ r) ∧ b.Matches (u.reverse ++ l) v r
  | .alt a b, l, w, r => a.Matches l w r ∨ b.Matches l w r
  | .many _ p, _, w, _ => ∀ x ∈ w, p x = true
  | .group _ a, l, w, r => a.Matches l w r
  | .atEnd, _, w, r => w = [] ∧ r = []
  | .wordBoundary, l, w, r => w = [] ∧ boundary l r = true

theorem mem_runMany {greedy : Bool} {p : UInt8 → Bool} {gs : List (Nat × Nat × Nat)} {l s : Bytes} {d : Cursor} :
    d ∈ runMany greedy p gs l s ↔
      ∃ w, (∀ x ∈ w, p x = true) ∧ s = w ++ d.after ∧ d.before = w.reverse ++ l ∧ d.groups = gs := by
  induction s generalizing l with
  | nil =>
    simp only [runMany, List.mem_singleton]
    constructor
    · rintro rfl
      exact ⟨[], by simp⟩
    · rintro ⟨w, -, hs, hb, hg⟩
      obtain ⟨rfl, ha⟩ := List.append_eq_nil_iff.1 hs.symm
      exact Cursor.ext hb ha hg
  | cons x s ih =>
    -- either nothing is taken, or `x` is and the rest goes on from there
    have hsplit : (∃ w, (∀ x ∈ w, p x = true) ∧ x :: s = w ++ d.after ∧ d.before = w.reverse ++ l ∧ d.groups = gs) ↔
        (d = ⟨l, x :: s, gs⟩ ∨ (p x = true ∧
          ∃ w, (∀ x ∈ w, p x = true) ∧ s = w ++ d.after ∧ d.before = w.reverse ++ (x :: l) ∧ d.groups = gs)) := by
      constructor
      · rintro ⟨w, hw, hs, hb, hg⟩
        cases w with
        | nil => exact Or.inl (Cursor.ext hb hs.symm hg)
        | cons y w =>
          simp only [List.cons_append, List.cons.injEq] at hs
          obtain ⟨rfl, hs⟩ := hs
          exact Or.inr ⟨hw x (by simp), w, fun z hz => hw z (by simp [hz]), hs, by simpa using hb, hg⟩
      · rintro (rfl | ⟨hx, w, hw, hs, hb, hg⟩)
        · exact ⟨[], by simp⟩
        · exact ⟨x :: w, by simpa [hx] using hw, by simp [hs], by simpa using hb, hg⟩
    rw [hsplit, ← ih, runMany]
    by_cases hx : p x = true
    · cases greedy <;> simp [hx, or_comm]
    · simp [hx]

/-- Every way the engine finds is a match. -/
theorem mem_run {p : Pattern} {c d : Cursor} (h : d ∈ run p c) :
    ∃ w, c.after = w ++ d.after ∧ d.before = w.reverse ++ c.before ∧ p.Matches c.before w d.after := by
  induction p generalizing c d with
  | empty =>
    rw [run, List.mem_singleton] at h
    subst h
    exact ⟨[], rfl, rfl, rfl⟩
  | char p =>
    simp only [run] at h
    split at h
    · cases h
    · rename_i x after hafter
      split at h
      · rename_i hx
        rw [List.mem_singleton] at h
        subst h
        exact ⟨[x], hafter, rfl, x, rfl, hx⟩
      · cases h
  | seq a b iha ihb =>
    rw [run, List.mem_flatMap] at h
    obtain ⟨m, hm, hd⟩ := h
    obtain ⟨u, hu, hbu, hau⟩ := iha hm
    obtain ⟨v, hv, hbv, hav⟩ := ihb hd
    refine ⟨u ++ v, by rw [hu, hv, List.append_assoc], by rw [hbv, hbu]; simp, u, v, rfl, ?_, ?_⟩
    · rwa [hv] at hau
    · rwa [hbu] at hav
  | alt a b iha ihb =>
    rw [run, List.mem_append] at h
    rcases h with h | h
    · obtain ⟨w, hw, hb, hm⟩ := iha h
      exact ⟨w, hw, hb, Or.inl hm⟩
    · obtain ⟨w, hw, hb, hm⟩ := ihb h
      exact ⟨w, hw, hb, Or.inr hm⟩
  | many greedy p =>
    obtain ⟨w, hw, hs, hb, -⟩ := mem_runMany.1 h
    exact ⟨w, hs, hb, hw⟩
  | group n a ih =>
    rw [run, List.mem_map] at h
    obtain ⟨m, hm, rfl⟩ := h
    exact ih (d := m) hm
  | atEnd =>
    rw [run] at h
    split at h
    · rename_i hnil
      rw [List.mem_singleton] at h
      subst h
      exact ⟨[], rfl, rfl, rfl, hnil⟩
    · cases h
  | wordBoundary =>
    rw [run] at h
    split at h
    · rename_i hb
      rw [List.mem_singleton] at h
      subst h
      exact ⟨[], rfl, rfl, rfl, hb⟩
    · cases h

/-- The engine finds every match. -/
theorem exists_mem_run {p : Pattern} {c : Cursor} {w r : Bytes} (hs : c.after = w ++ r)
    (hm : p.Matches c.before w r) : ∃ d ∈ run p c, d.after = r ∧ d.before = w.reverse ++ c.before := by
  induction p generalizing c w r with
  | empty =>
    cases hm
    exact ⟨c, by simp [run], hs, rfl⟩
  | char p =>
    obtain ⟨x, rfl, hx⟩ := hm
    refine ⟨⟨x :: c.before, r, c.groups⟩, ?_, rfl, rfl⟩
    rw [run, hs]
    simp [hx]
  | seq a b iha ihb =>
    obtain ⟨u, v, rfl, hu, hv⟩ := hm
    obtain ⟨m, hmem, hma, hmb⟩ := iha (by rw [hs, List.append_assoc]) hu
    rw [← hmb] at hv
    obtain ⟨d, hd, hda, hdb⟩ := ihb hma hv
    refine ⟨d, ?_, hda, ?_⟩
    · rw [run, List.mem_flatMap]
      exact ⟨m, hmem, hd⟩
    · rw [hdb, hmb]
      simp
  | alt a b iha ihb =>
    rcases hm with hm | hm
    · obtain ⟨d, hd, hdd⟩ := iha hs hm
      exact ⟨d, by rw [run]; exact List.mem_append_left _ hd, hdd⟩
    · obtain ⟨d, hd, hdd⟩ := ihb hs hm
      exact ⟨d, by rw [run]; exact List.mem_append_right _ hd, hdd⟩
  | many greedy p =>
    refine ⟨⟨w.reverse ++ c.before, r, c.groups⟩, ?_, rfl, rfl⟩
    rw [run, mem_runMany]
    exact ⟨w, hm, hs, rfl, rfl⟩
  | group n a ih =>
    obtain ⟨d, hd, hda, hdb⟩ := ih hs hm
    refine ⟨{ d with groups := (n, c.before.length, d.before.length - c.before.length) :: d.groups }, ?_, hda, hdb⟩
    rw [run, List.mem_map]
    exact ⟨d, hd, rfl⟩
  | atEnd =>
    obtain ⟨rfl, rfl⟩ := hm
    have hnil : c.after = [] := hs
    exact ⟨c, by rw [run, if_pos hnil]; simp, hnil, rfl⟩
  | wordBoundary =>
    obtain ⟨rfl, hb⟩ := hm
    have hs' : c.after = r := hs
    exact ⟨c, by rw [run, hs', if_pos hb]; simp, hs, rfl⟩

/-- **`regex_match` succeeds exactly on the texts that match.** -/
theorem fullMatch_isSome {p : Pattern} {s : Bytes} : (fullMatch p s).isSome = true ↔ p.Matches [] s [] := by
  rw [fullMatch, Option.isSome_map, List.find?_isSome]
  constructor
  · rintro ⟨d, hd, hend⟩
    obtain ⟨w, hw, -, hm⟩ := mem_run hd
    simp only [decide_eq_true_eq] at hend
    rw [hend] at hw hm
    rw [List.append_nil] at hw
    rw [show s = w from hw]
    exact hm
  · intro hm
    obtain ⟨d, hd, hda, -⟩ := exists_mem_run (c := ⟨[], s, []⟩) (List.append_nil s).symm hm
    exact ⟨d, hd, by simp [hda]⟩

/-- Some part of the text matches. -/
def Pattern.Occurs (p : Pattern) (s : Bytes) : Prop := ∃ l w r, s = l ++ w ++ r ∧ p.Matches l.reverse w r

/-- A place where the pattern matches at once. -/
theorem run_ne_nil {p : Pattern} {before after : Bytes} :
    run p ⟨before, after, []⟩ ≠ [] ↔ ∃ w r, after = w ++ r ∧ p.Matches before w r := by
  constructor
  · intro hne
    obtain ⟨d, hd⟩ := List.exists_mem_of_ne_nil _ hne
    obtain ⟨w, hw, -, hm⟩ := mem_run hd
    exact ⟨w, d.after, hw, hm⟩
  · rintro ⟨w, r, hs, hm⟩
    obtain ⟨d, hd, -⟩ := exists_mem_run (c := ⟨before, after, []⟩) hs hm
    exact List.ne_nil_of_mem hd

theorem searchFrom_isSome {p : Pattern} {before after : Bytes} : (searchFrom p before after).isSome = true ↔
    ∃ l w r, after = l ++ w ++ r ∧ p.Matches (l.reverse ++ before) w r := by
  have hhere : ∀ {before after : Bytes}, run p ⟨before, after, []⟩ ≠ [] →
      ∃ l w r, after = l ++ w ++ r ∧ p.Matches (l.reverse ++ before) w r := by
    intro before after hne
    obtain ⟨w, r, hs, hm⟩ := run_ne_nil.1 hne
    exact ⟨[], w, r, hs, hm⟩
  induction after generalizing before with
  | nil =>
    rw [searchFrom]
    split
    · rename_i d ds hrun
      exact iff_of_true rfl (hhere (by simp [hrun]))
    · rename_i hrun
      refine iff_of_false (by simp) ?_
      rintro ⟨l, w, r, hs, hm⟩
      obtain ⟨hlw, rfl⟩ := List.append_eq_nil_iff.1 hs.symm
      obtain ⟨rfl, rfl⟩ := List.append_eq_nil_iff.1 hlw
      exact run_ne_nil.2 ⟨[], [], rfl, hm⟩ hrun
  | cons x after ih =>
    rw [searchFrom]
    split
    · rename_i d ds hrun
      exact iff_of_true rfl (hhere (by simp [hrun]))
    · rename_i hrun
      refine (ih ).trans ?_
      constructor
      · rintro ⟨l, w, r, rfl, hm⟩
        exact ⟨x :: l, w, r, rfl, by simpa using hm⟩
      · rintro ⟨l, w, r, hs, hm⟩
        cases l with
        | nil => exact absurd hrun (run_ne_nil.2 ⟨w, r, hs, hm⟩)
        | cons y l =>
          simp only [List.cons_append, List.cons.injEq] at hs
          obtain ⟨rfl, rfl⟩ := hs
          exact ⟨l, w, r, rfl, by simpa using hm⟩

/-- **`regex_search` succeeds exactly on the texts some part of which matches.** -/
theorem search_isSome {p : Pattern} {s : Bytes} : (search p s).isSome = true ↔ p.Occurs s := by
  rw [search, searchFrom_isSome]
  simp [Pattern.Occurs]

instance (p : Pattern) (s : Bytes) : Decidable (p.Occurs s) := decidable_of_iff _ search_isSome

/-! ## What a group has taken -/

/-- The numbers of the groups of a pattern. -/
def Pattern.groups : Pattern → List Nat
  | .seq a b | .alt a b => a.groups ++ b.groups
  | .group n a => n :: a.groups
  | _ => []

@[simp] theorem groups_plus (greedy : Bool) (p : UInt8 → Bool) : (plus greedy p).groups = [] := rfl

@[simp] theorem groups_litI (s : Bytes) : (litI s).groups = [] := by
  induction s with
  | nil => rfl
  | cons c s ih => simp [litI, Pattern.groups, ih]

/-- The group takes part in every match, and the last thing it takes satisfies `Q`. -/
def Pattern.Closes (n : Nat) (Q : Bytes → Prop) : Pattern → Prop
  | .seq a b => b.Closes n Q ∨ (a.Closes n Q ∧ n ∉ b.groups)
  | .alt a b => a.Closes n Q ∧ b.Closes n Q
  | .group m a => m = n ∧ ∀ l w r, a.Matches l w r → Q w
  | _ => False

section Groups
variable {n : Nat} {p : Pattern} {c d : Cursor} {Q : Bytes → Prop}

theorem mem_run_seq {a b : Pattern} : d ∈ run (.seq a b) c ↔ ∃ e ∈ run a c, d ∈ run b e := by
  simp [run]

/-- The engine only moves along the text. -/
theorem text_run (h : d ∈ run p c) : d.before.reverse ++ d.after = c.before.reverse ++ c.after := by
  obtain ⟨w, ha, hb, -⟩ := mem_run h
  simp [ha, hb]

theorem lookup_run (hn : n ∉ p.groups) (h : d ∈ run p c) : d.groups.lookup n = c.groups.lookup n := by
  induction p generalizing c d with
  | empty =>
    simp [run] at h
    rw [h]
  | char p =>
    simp only [run] at h
    split at h
    · cases h
    · split at h
      · rw [List.mem_singleton.1 h]
      · cases h
  | seq a b iha ihb =>
    obtain ⟨e, he, hd⟩ := mem_run_seq.1 h
    simp only [Pattern.groups, List.mem_append, not_or] at hn
    rw [ihb hn.2 hd, iha hn.1 he]
  | alt a b iha ihb =>
    simp only [Pattern.groups, List.mem_append, not_or] at hn
    rcases List.mem_append.1 h with h | h
    · exact iha hn.1 h
    · exact ihb hn.2 h
  | many greedy p =>
    obtain ⟨w, -, -, -, hg⟩ := mem_runMany.1 h
    rw [hg]
  | group m a ih =>
    simp only [Pattern.groups, List.mem_cons, not_or] at hn
    simp only [run, List.mem_map] at h
    obtain ⟨e, he, rfl⟩ := h
    rw [List.lookup_cons, beq_eq_false_iff_ne.2 hn.1]
    exact ih hn.2 he
  | atEnd | wordBoundary =>
    simp only [run] at h
    split at h
    · rw [List.mem_singleton.1 h]
    · cases h

/-- What the group has taken, cut out of the text. -/
theorem closes_run (hc : p.Closes n Q) (h : d ∈ run p c) : ∃ pos len, d.groups.lookup n = some (pos, len) ∧
    Q (((c.before.reverse ++ c.after).drop pos).take len) := by
  induction p generalizing c d with
  | seq a b iha ihb =>
    obtain ⟨e, he, hd⟩ := mem_run_seq.1 h
    rcases hc with hc | ⟨hc, hn⟩
    · rw [← text_run he]
      exact ihb hc hd
    · rw [lookup_run hn hd]
      exact iha hc he
  | alt a b iha ihb =>
    rcases List.mem_append.1 h with h | h
    · exact iha hc.1 h
    · exact ihb hc.2 h
  | group m a ih =>
    obtain ⟨rfl, hQ⟩ := hc
    simp only [run, List.mem_map] at h
    obtain ⟨e, he, rfl⟩ := h
    obtain ⟨w, ha, hb, hm⟩ := mem_run he
    refine ⟨c.before.length, e.before.length - c.before.length, by simp, ?_⟩
    have hlen : e.before.length - c.before.length = w.length := by simp [hb]
    rw [hlen, ha]
    simpa using hQ _ _ _ hm
  | empty | char _ | many _ _ | atEnd | wordBoundary => cases hc

theorem fullMatch_str {s : Bytes} {m : Match} (hc : p.Closes n Q) (h : fullMatch p s = some m) : Q (m.str n s) := by
  rw [fullMatch, Option.map_eq_some_iff] at h
  obtain ⟨d, hd, rfl⟩ := h
  obtain ⟨pos, len, hl, hQ⟩ := closes_run hc (List.mem_of_find?_eq_some hd)
  simpa [Match.str, hl] using hQ

end Groups

/-! ## The words of the derived patterns -/

section Words
variable {l w r : Bytes}

@[simp] theorem matches_seq {a b : Pattern} : (Pattern.seq a b).Matches l w r ↔
    ∃ u v, w = u ++ v ∧ a.Matches l u (v ++ r) ∧ b.Matches (u.reverse ++ l) v r := Iff.rfl

@[simp] theorem matches_group {n : Nat} {a : Pattern} : (Pattern.group n a).Matches l w r ↔ a.Matches l w r := Iff.rfl

@[simp] theorem matches_many {greedy : Bool} {p : UInt8 → Bool} :
    (Pattern.many greedy p).Matches l w r ↔ ∀ x ∈ w, p x = true := Iff.rfl

@[simp] theorem matches_opt {a : Pattern} : (opt a).Matches l w r ↔ a.Matches l w r ∨ w = [] := Iff.rfl

@[simp] theorem matches_plus {greedy : Bool} {p : UInt8 → Bool} :
    (plus greedy p).Matches l w r ↔ w ≠ [] ∧ ∀ x ∈ w, p x = true := by
  constructor
  · rintro ⟨u, v, rfl, ⟨x, rfl, hx⟩, hv⟩
    refine ⟨by simp, fun y hy => ?_⟩
    rcases List.mem_cons.1 hy with rfl | hy
    · exact hx
    · exact hv y hy
  · rintro ⟨hne, hall⟩
    cases w with
    | nil => exact absurd rfl hne
    | cons x w => exact ⟨[x], w, rfl, ⟨x, rfl, hall x (by simp)⟩, fun y hy => hall y (by simp [hy])⟩

@[simp] theorem matches_lit {s : Bytes} : (lit s).Matches l w r ↔ w = s := by
  induction s generalizing l w with
  | nil => exact Iff.rfl
  | cons c s ih =>
    rw [lit, matches_seq]
    constructor
    · rintro ⟨u, v, rfl, ⟨x, rfl, hx⟩, hv⟩
      rw [ih.1 hv, of_decide_eq_true hx]
      rfl
    · rintro rfl
      exact ⟨[c], s, rfl, ⟨c, rfl, by simp⟩, ih.2 rfl⟩

@[simp] theorem matches_litI {s : Bytes} : (litI s).Matches l w r ↔ w.map toLower = s.map toLower := by
  induction s generalizing l w with
  | nil => simp [litI, Pattern.Matches]
  | cons c s ih =>
    rw [litI, matches_seq]
    constructor
    · rintro ⟨u, v, rfl, ⟨x, rfl, hx⟩, hv⟩
      simp [ih.1 hv, of_decide_eq_true hx]
    · intro hw
      cases w with
      | nil => cases hw
      | cons x w =>
        simp only [List.map_cons, List.cons.injEq] at hw
        exact ⟨[x], w, rfl, ⟨x, rfl, by simpa using hw.1⟩, ih.2 hw.2⟩

end Words

end Regex
