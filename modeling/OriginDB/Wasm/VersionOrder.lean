import Mathlib.Data.List.GetD
import OriginDB.Lib.FirstDifference
import OriginDB.Wasm.FailedDeploy
import OriginDB.Wasm.Versions
/-!
# Is the order of versions one? (`CompareVersions`, `LoadModule`, `wasm_engine.cpp:186-198, 245-266`)

Two numbers are compared by their values and a number with a text as texts. So a text can stand between two numbers the wrong
way around: 9 is below 10, `10` below `1a` and `1a` below `9`, and the version gate, which compares with the deployed version
alone, lets a module come back down over such a text (`versions_ordered_iff`). A number beyond `long` has no order at all.

| here | there |
| --- | --- |
| `Older`     | `CompareVersions` is negative |
| `OrderedOn` | it returns, and orders these versions totally |
| `Redeploys` | deploys of one name, each of them accepted |
-/
namespace OriginDB

open JsonDoc ByteCodec FirstDifference Machine

namespace Wasm

/-- Numbers by value, anything else as text. -/
def LowerSegment (s t : Bytes) : Prop :=
  if isNumeric s && isNumeric t then Numbers.digits s < Numbers.digits t else compare s t = .lt

def SameSegment (s t : Bytes) : Prop := if isNumeric s && isNumeric t then Numbers.digits s = Numbers.digits t else s = t

/-- A segment of a version, empty where there is none. -/
def segment (v : Bytes) (i : Nat) : Bytes := (versionSegments v).getD i []

/-- In the first segments that are not the same, it has the lower one. -/
def Older (a b : Bytes) : Prop := Before LowerSegment SameSegment (segment a) (segment b)

/-- `CompareVersions` is a total order on these versions. -/
structure OrderedOn (V : Set Bytes) : Prop where
  returns : ∀ a ∈ V, ∀ b ∈ V, (compareVersions a b).isSome = true
  antisymm : ∀ a ∈ V, ∀ b ∈ V, compareVersions a b = (compareVersions b a).map fun c => -c
  trans : ∀ a ∈ V, ∀ b ∈ V, ∀ c ∈ V, (compareVersions a b).any (fun r => r ≤ 0) = true →
    (compareVersions b c).any (fun r => r ≤ 0) = true → (compareVersions a c).any (fun r => r ≤ 0) = true

/-- In the first segments that are not all the same, the text of `z` is above that of the number of `y` and below that of the
number of `x`, but `y` is not the older version. -/
def Straddled (x y z : Bytes) : Prop :=
  ∃ i, AgreeTo SameSegment i (segment x) (segment y) ∧ AgreeTo SameSegment i (segment y) (segment z) ∧
    isNumeric (segment x i) = true ∧ isNumeric (segment y i) = true ∧ isNumeric (segment z i) = false ∧
    compare (segment y i) (segment z i) = .lt ∧ compare (segment z i) (segment x i) = .lt ∧ ¬ Older y x

/-- Every number is a `long`, and no text stands between two numbers the wrong way around. -/
structure Comparable (V : Set Bytes) : Prop where
  bounded : ∀ v ∈ V, ∀ s ∈ versionSegments v, isNumeric s = true → Numbers.digits s < 2 ^ 63
  unstraddled : ∀ x ∈ V, ∀ y ∈ V, ∀ z ∈ V, ¬ Straddled x y z

/-! ## Deploys -/

/-- A deploy, and what it meets. -/
structure Redeploy where
  bytecode : Bytes
  version : Bytes
  caps : ModuleCapabilities := {}
  ld : Loading := {}

/-- The engine's modules, the tables and the versions of the name that have been deployed. -/
structure Redeploys where
  modules : StrMap WasmModule
  store : Store
  deployed : List Bytes

namespace Redeploys

def version (modules : StrMap WasmModule) (name : Bytes) : Option Bytes := modules[name]?.map WasmModule.version

def boot (name : Bytes) (modules : StrMap WasmModule) (store : Store) : Redeploys :=
  ⟨modules, store, (version modules name).toList⟩

/-- A deploy that is accepted. -/
def step (env : Env) (maxLag : Nat) (name : Bytes) (x : Redeploys) (r : Redeploy) : Option Redeploys :=
  match loadModule env maxLag x.modules name r.bytecode r.version r.caps r.ld x.store with
  | .loaded modules store => some ⟨modules, store, x.deployed ++ (version modules name).toList⟩
  | .failed _ _ | .threw _ => none

/-- No version compares lower than one that was deployed before it. -/
def NeverLower (x : Redeploys) : Prop :=
  x.deployed.Pairwise fun earlier later => (compareVersions later earlier).any (fun c => 0 ≤ c) = true

end Redeploys

/-! ## Segments -/

section
variable {a b s t u x y z : Bytes} {f g : Nat → Bytes}

theorem trichotomy_segment : Trichotomy LowerSegment SameSegment where
  equivalence := by
    refine ⟨fun s => ?_, fun {s t} h => ?_, fun {s t u} h h' => ?_⟩
    · unfold SameSegment
      split <;> rfl
    · unfold SameSegment at h ⊢
      rw [Bool.and_comm]
      split at h
      · rename_i hnum
        rw [if_pos hnum]
        exact h.symm
      · rename_i hnum
        rw [if_neg hnum]
        exact h.symm
    · unfold SameSegment at h h' ⊢
      cases hs : isNumeric s <;> cases ht : isNumeric t <;> cases hu : isNumeric u <;> simp_all
  asymm := by
    intro s t h
    unfold LowerSegment at h ⊢
    rw [Bool.and_comm]
    split at h
    · rename_i hnum
      rw [if_pos hnum]
      exact Nat.lt_asymm h
    · rename_i hnum
      rw [if_neg hnum]
      rw [Std.OrientedCmp.gt_of_lt h]
      decide
  not_same := by
    intro s t h
    unfold LowerSegment at h
    unfold SameSegment
    split at h
    · rename_i hnum
      rw [if_pos hnum]
      exact Nat.ne_of_lt h
    · rename_i hnum
      rw [if_neg hnum]
      rintro rfl
      rw [show compare s s = .eq from Std.ReflCmp.compare_self] at h
      cases h
  total := by
    intro s t
    unfold LowerSegment SameSegment
    rw [Bool.and_comm (isNumeric t)]
    split
    · exact Nat.lt_trichotomy _ _
    · cases hc : compare s t with
      | lt => exact Or.inl rfl
      | eq => exact Or.inr (Or.inl (Std.LawfulEqCmp.eq_of_compare hc))
      | gt => exact Or.inr (Or.inr (Std.OrientedCmp.lt_of_gt hc))

theorem lowerSegment_text (h : (isNumeric s && isNumeric t) = false) : LowerSegment s t ↔ compare s t = .lt := by
  rw [LowerSegment, h, if_neg Bool.false_ne_true]

theorem lowerSegment_numeric (hs : isNumeric s = true) (ht : isNumeric t = true) :
    LowerSegment s t ↔ Numbers.digits s < Numbers.digits t := by
  rw [LowerSegment, hs, ht, Bool.and_self, if_pos rfl]

/-- Texts are ordered, and so are numbers: a cycle of three segments has two numbers and a text. -/
theorem cycle_mixed (hts : LowerSegment t u) (hus : LowerSegment u s) (hno : ¬ LowerSegment t s) :
    (isNumeric s = true ∧ isNumeric t = true ∧ isNumeric u = false) ∨
    (isNumeric u = true ∧ isNumeric s = true ∧ isNumeric t = false) ∨
    (isNumeric t = true ∧ isNumeric u = true ∧ isNumeric s = false) := by
  have htexts : compare t u = .lt → compare u s = .lt → compare t s = .lt := fun h h' => Std.TransCmp.lt_trans h h'
  unfold LowerSegment at hts hus hno
  cases hs : isNumeric s <;> cases ht : isNumeric t <;> cases hu : isNumeric u <;> simp only [hs, ht, hu] at hts hus hno
  case true.true.true => exact absurd (Nat.lt_trans hts hus) hno
  case true.true.false => exact Or.inl ⟨rfl, rfl, rfl⟩
  case true.false.true => exact Or.inr (Or.inl ⟨rfl, rfl, rfl⟩)
  case false.true.true => exact Or.inr (Or.inr ⟨rfl, rfl, rfl⟩)
  all_goals exact absurd (htexts hts hus) hno

theorem Straddled.knot (h : Straddled x y z) : Knot LowerSegment SameSegment (segment x) (segment y) (segment z) := by
  obtain ⟨i, hxy, hyz, hx, hy, hz, hlower, hlower', hno⟩ := h
  refine ⟨i, hxy, hyz, ?_, ?_, hno⟩
  · rw [lowerSegment_text (by rw [hz, Bool.and_false])]
    exact hlower
  · rw [lowerSegment_text (by rw [hz, Bool.false_and])]
    exact hlower'

/-- A knot is a text between two numbers, in one of its three readings. -/
theorem straddled_of_knot (h : Knot LowerSegment SameSegment (segment x) (segment y) (segment z)) :
    Straddled x y z ∨ Straddled z x y ∨ Straddled y z x := by
  obtain ⟨i, hxy, hyz, hlower, hlower', hno⟩ := h
  have ht := trichotomy_segment
  have hzx : AgreeTo SameSegment i (segment z) (segment x) := (hxy.trans ht hyz).symm ht
  -- the entries of `x` and `y` in this place are not a step down from `y` to `x`
  have hstay : ¬ LowerSegment (segment y i) (segment x i) := fun hl => hno (before_at (hxy.symm ht) hl)
  have hup : ∀ {s t : Bytes}, (isNumeric s && isNumeric t) = false → isNumeric s ≠ isNumeric t → ¬ LowerSegment s t → compare t s = .lt := by
    intro s t hmixed hdiffer hnot
    rw [lowerSegment_text hmixed] at hnot
    cases hc : compare s t with
    | lt => exact absurd hc hnot
    | eq =>
      rw [Std.LawfulEqCmp.eq_of_compare hc] at hdiffer
      exact absurd rfl hdiffer
    | gt => exact Std.OrientedCmp.lt_of_gt hc
  rcases cycle_mixed hlower hlower' hstay with ⟨hx, hy, hz⟩ | ⟨hz, hx, hy⟩ | ⟨hy, hz, hx⟩
  · refine Or.inl ⟨i, hxy, hyz, hx, hy, hz, ?_, ?_, hno⟩
    · exact (lowerSegment_text (by rw [hz, Bool.and_false])).1 hlower
    · exact (lowerSegment_text (by rw [hz, Bool.false_and])).1 hlower'
  · refine Or.inr (Or.inl ⟨i, hzx, hxy, hz, hx, hy, ?_, ?_, (before_at hzx hlower').asymm ht⟩)
    · exact hup (by rw [hy, Bool.false_and]) (by rw [hx, hy]; decide) hstay
    · exact (lowerSegment_text (by rw [hy, Bool.false_and])).1 hlower
  · refine Or.inr (Or.inr ⟨i, hyz, hzx, hy, hz, hx, ?_, ?_, (before_at hyz hlower).asymm ht⟩)
    · exact (lowerSegment_text (by rw [hx, Bool.and_false])).1 hlower'
    · exact hup (by rw [hx, Bool.and_false]) (by rw [hx, hy]; decide) hstay

/-! ## What `CompareVersions` returns -/

/-- The result for two sequences of segments. -/
def Decides (f g : Nat → Bytes) (r : Option Int) : Prop :=
  (Before LowerSegment SameSegment f g ∧ r = some (-1)) ∨ (Before LowerSegment SameSegment g f ∧ r = some 1) ∨
    ((∀ i, SameSegment (f i) (g i)) ∧ r = some 0)

theorem compareSegment_cases (hs : isNumeric s = true → Numbers.digits s < 2 ^ 63) (ht : isNumeric t = true → Numbers.digits t < 2 ^ 63) :
    (LowerSegment s t ∧ compareSegment s t = some (-1)) ∨ (LowerSegment t s ∧ compareSegment s t = some 1) ∨
      (SameSegment s t ∧ compareSegment s t = some 0) := by
  by_cases hnum : isNumeric s = true ∧ isNumeric t = true
  · rw [compareSegment_numeric hnum.1 hnum.2 (hs hnum.1) (ht hnum.2), lowerSegment_numeric hnum.1 hnum.2,
      lowerSegment_numeric hnum.2 hnum.1, SameSegment, hnum.1, hnum.2]
    rcases Nat.lt_trichotomy (Numbers.digits s) (Numbers.digits t) with hl | he | hg
    · exact Or.inl ⟨hl, by rw [if_pos hl]⟩
    · exact Or.inr (Or.inr ⟨he, by rw [he, if_neg (Nat.lt_irrefl _), if_neg (Nat.lt_irrefl _)]⟩)
    · exact Or.inr (Or.inl ⟨hg, by rw [if_neg (Nat.lt_asymm hg), if_pos hg]⟩)
  · have hmixed : (isNumeric s && isNumeric t) = false := by simpa using hnum
    have hmixed' : (isNumeric t && isNumeric s) = false := by rw [Bool.and_comm, hmixed]
    rw [lowerSegment_text hmixed, lowerSegment_text hmixed', SameSegment, compareSegment, hmixed, if_neg Bool.false_ne_true,
      if_neg Bool.false_ne_true]
    cases hc : compare s t with
    | lt =>
      have hne : s ≠ t := by
        rintro rfl
        rw [show compare s s = .eq from Std.ReflCmp.compare_self] at hc
        cases hc
      exact Or.inl ⟨rfl, by rw [if_pos hne]; rfl⟩
    | eq =>
      have heq := Std.LawfulEqCmp.eq_of_compare hc
      exact Or.inr (Or.inr ⟨heq, by rw [if_neg fun h => h heq]⟩)
    | gt =>
      have hne : s ≠ t := by
        rintro rfl
        rw [show compare s s = .eq from Std.ReflCmp.compare_self] at hc
        cases hc
      exact Or.inr (Or.inl ⟨Std.OrientedCmp.lt_of_gt hc, by rw [if_pos hne]; rfl⟩)

/-- One round of the loop. -/
theorem Decides.round {r : Option Int} (hf : isNumeric (f 0) = true → Numbers.digits (f 0) < 2 ^ 63)
    (hg : isNumeric (g 0) = true → Numbers.digits (g 0) < 2 ^ 63) (hrest : Decides (fun i => f (i + 1)) (fun i => g (i + 1)) r) :
    Decides f g ((compareSegment (f 0) (g 0)).bind fun c => if c ≠ 0 then some c else r) := by
  have ht := trichotomy_segment
  rcases compareSegment_cases hf hg with ⟨hl, hc⟩ | ⟨hl, hc⟩ | ⟨hs, hc⟩
  · exact Or.inl ⟨before_iff.2 (Or.inl hl), by rw [hc]; rfl⟩
  · exact Or.inr (Or.inl ⟨before_iff.2 (Or.inl hl), by rw [hc]; rfl⟩)
  · have hr : ((compareSegment (f 0) (g 0)).bind fun c => if c ≠ 0 then some c else r) = r := by
      rw [hc]
      rfl
    rw [hr]
    rcases hrest with ⟨hb, hval⟩ | ⟨hb, hval⟩ | ⟨hall, hval⟩
    · exact Or.inl ⟨before_iff.2 (Or.inr ⟨hs, hb⟩), hval⟩
    · exact Or.inr (Or.inl ⟨before_iff.2 (Or.inr ⟨ht.equivalence.symm hs, hb⟩), hval⟩)
    · refine Or.inr (Or.inr ⟨fun i => ?_, hval⟩)
      cases i with
      | zero => exact hs
      | succ i => exact hall i

/-- All rounds, with an empty segment where a version has run out. -/
theorem decides_compareSegments (as bs : List Bytes) (ha : ∀ s ∈ as, isNumeric s = true → Numbers.digits s < 2 ^ 63)
    (hb : ∀ s ∈ bs, isNumeric s = true → Numbers.digits s < 2 ^ 63) :
    Decides (fun i => as.getD i []) (fun i => bs.getD i []) (compareSegments as bs) := by
  have hnone : isNumeric [] = true → Numbers.digits [] < 2 ^ 63 := fun h => by cases h
  fun_induction compareSegments as bs with
  | case1 => exact Or.inr (Or.inr ⟨fun i => trichotomy_segment.equivalence.refl _, rfl⟩)
  | case2 a as ih =>
    obtain ⟨hfirst, hrest⟩ := List.forall_mem_cons.1 ha
    exact Decides.round (f := fun i => (a :: as).getD i []) (g := fun i => [].getD i []) hfirst hnone (ih hrest hb)
  | case3 b bs ih =>
    obtain ⟨hfirst, hrest⟩ := List.forall_mem_cons.1 hb
    exact Decides.round (f := fun i => [].getD i []) (g := fun i => (b :: bs).getD i []) hnone hfirst (ih ha hrest)
  | case4 a as b bs ih =>
    obtain ⟨hfirst, hrest⟩ := List.forall_mem_cons.1 ha
    obtain ⟨hfirst', hrest'⟩ := List.forall_mem_cons.1 hb
    exact Decides.round (f := fun i => (a :: as).getD i []) (g := fun i => (b :: bs).getD i []) hfirst hfirst' (ih hrest hrest')

theorem decides_compareVersions (ha : ∀ s ∈ versionSegments a, isNumeric s = true → Numbers.digits s < 2 ^ 63)
    (hb : ∀ s ∈ versionSegments b, isNumeric s = true → Numbers.digits s < 2 ^ 63) :
    Decides (segment a) (segment b) (compareVersions a b) :=
  decides_compareSegments (versionSegments a) (versionSegments b) ha hb

/-- A number beyond `long` is not even compared with itself. -/
theorem compareSegments_self {as : List Bytes} (h : (compareSegments as as).isSome = true) :
    ∀ s ∈ as, isNumeric s = true → Numbers.digits s < 2 ^ 63 := by
  induction as with
  | nil => simp
  | cons a as ih =>
    rw [compareSegments] at h
    have hself : isNumeric a = true → Numbers.digits a < 2 ^ 63 := by
      intro hnum
      by_contra hlt
      have hnone : compareSegment a a = none := by
        rw [compareSegment, hnum, Bool.and_self, if_pos rfl, stoll_digits hnum, if_neg hlt]
        rfl
      rw [hnone] at h
      cases h
    have hzero : compareSegment a a = some 0 := by
      rcases compareSegment_cases hself hself with ⟨hl, -⟩ | ⟨hl, -⟩ | ⟨-, hc⟩
      · exact absurd hl (trichotomy_segment.irrefl a)
      · exact absurd hl (trichotomy_segment.irrefl a)
      · exact hc
    have hrest : (compareSegments as as).isSome = true := by
      rw [hzero] at h
      exact h
    rw [List.forall_mem_cons]
    exact ⟨hself, ih hrest⟩

theorem Decides.le_zero {r : Option Int} (h : Decides f g r) : r.any (fun c => c ≤ 0) = true ↔ ¬ Before LowerSegment SameSegment g f := by
  have ht := trichotomy_segment
  rcases h with ⟨hb, rfl⟩ | ⟨hb, rfl⟩ | ⟨hall, rfl⟩
  · exact iff_of_true rfl (hb.asymm ht)
  · exact iff_of_false (by decide) (not_not.2 hb)
  · refine iff_of_true rfl ?_
    rintro ⟨i, -, hlower⟩
    exact ht.not_same _ _ hlower (ht.equivalence.symm (hall i))

theorem Decides.zero_le {r : Option Int} (h : Decides f g r) : r.any (fun c => 0 ≤ c) = true ↔ ¬ Before LowerSegment SameSegment f g := by
  have ht := trichotomy_segment
  rcases h with ⟨hb, rfl⟩ | ⟨hb, rfl⟩ | ⟨hall, rfl⟩
  · exact iff_of_false (by decide) (not_not.2 hb)
  · exact iff_of_true rfl (hb.asymm ht)
  · refine iff_of_true rfl ?_
    rintro ⟨i, -, hlower⟩
    exact ht.not_same _ _ hlower (hall i)

/-- The result with the arguments exchanged. -/
theorem Decides.neg {r r' : Option Int} (h : Decides f g r) (h' : Decides g f r') : r = r'.map fun c => -c := by
  have ht := trichotomy_segment
  have hsame : (∀ i, SameSegment (f i) (g i)) → ¬ Before LowerSegment SameSegment f g ∧ ¬ Before LowerSegment SameSegment g f := by
    intro hall
    refine ⟨?_, ?_⟩
    · rintro ⟨i, -, hlower⟩
      exact ht.not_same _ _ hlower (hall i)
    · rintro ⟨i, -, hlower⟩
      exact ht.not_same _ _ hlower (ht.equivalence.symm (hall i))
  rcases h with ⟨hb, rfl⟩ | ⟨hb, rfl⟩ | ⟨hall, rfl⟩
  · rcases h' with ⟨hb', rfl⟩ | ⟨-, rfl⟩ | ⟨hall', rfl⟩
    · exact absurd hb' (hb.asymm ht)
    · rfl
    · exact absurd hb (hsame fun i => ht.equivalence.symm (hall' i)).1
  · rcases h' with ⟨-, rfl⟩ | ⟨hb', rfl⟩ | ⟨hall', rfl⟩
    · rfl
    · exact absurd hb' (hb.asymm ht)
    · exact absurd hb (hsame fun i => ht.equivalence.symm (hall' i)).2
  · rcases h' with ⟨hb', -⟩ | ⟨hb', -⟩ | ⟨-, rfl⟩
    · exact absurd hb' (hsame hall).2
    · exact absurd hb' (hsame hall).1
    · rfl

end

/-! ## The order -/

section
variable {V : Set Bytes}

/-- Versions that are not straddled are ordered by their age. -/
theorem older_trans_iff : (∀ x ∈ V, ∀ y ∈ V, ∀ z ∈ V, ¬ Older y x → ¬ Older z y → ¬ Older z x) ↔
    ∀ x ∈ V, ∀ y ∈ V, ∀ z ∈ V, ¬ Straddled x y z := by
  have horder := weakOrder_iff trichotomy_segment (segment '' V)
  simp only [Set.forall_mem_image] at horder
  constructor
  · intro h x hx y hy z hz hstraddled
    exact horder.1 (fun a ha b hb c hc => h a ha b hb c hc) hx hy hz hstraddled.knot
  · intro h x hx y hy z hz
    refine horder.2 (fun a ha b hb c hc hknot => ?_) hx hy hz
    rcases straddled_of_knot hknot with hs | hs | hs
    · exact h a ha b hb c hc hs
    · exact h c hc a ha b hb hs
    · exact h b hb c hc a ha hs

theorem orderedOn_iff : OrderedOn V ↔ Comparable V := by
  have hdecides : (∀ v ∈ V, ∀ s ∈ versionSegments v, isNumeric s = true → Numbers.digits s < 2 ^ 63) →
      ∀ a ∈ V, ∀ b ∈ V, Decides (segment a) (segment b) (compareVersions a b) := fun hb a ha b hb' =>
    decides_compareVersions (hb a ha) (hb b hb')
  constructor
  · intro h
    have hb : ∀ v ∈ V, ∀ s ∈ versionSegments v, isNumeric s = true → Numbers.digits s < 2 ^ 63 := fun v hv =>
      compareSegments_self (h.returns v hv v hv)
    refine ⟨hb, older_trans_iff.1 fun x hx y hy z hz hyx hzy => ?_⟩
    have hxy := (hdecides hb x hx y hy).le_zero.2 hyx
    have hyz := (hdecides hb y hy z hz).le_zero.2 hzy
    exact (hdecides hb x hx z hz).le_zero.1 (h.trans x hx y hy z hz hxy hyz)
  · intro h
    have hd := hdecides h.bounded
    refine ⟨fun a ha b hb => ?_, fun a ha b hb => (hd a ha b hb).neg (hd b hb a ha), fun a ha b hb c hc hab hbc => ?_⟩
    · rcases hd a ha b hb with ⟨-, hr⟩ | ⟨-, hr⟩ | ⟨-, hr⟩ <;> rw [hr] <;> rfl
    · have hba := (hd a ha b hb).le_zero.1 hab
      have hcb := (hd b hb c hc).le_zero.1 hbc
      exact (hd a ha c hc).le_zero.2 (older_trans_iff.2 h.unstraddled a ha b hb c hc hba hcb)

end

/-! ## Runs of deploys -/

namespace Redeploys

section
variable {env : Env} {maxLag : Nat} {name : Bytes} {x x' : Redeploys} {r : Redeploy} {V : Set Bytes}

/-- A module that is loaded has passed the gate. -/
theorem step_spec (h : step env maxLag name x r = some x') : ∃ module, passesGate x.modules name module = true ∧
    x'.modules[name]? = some module ∧ x'.deployed = x.deployed ++ [module.version] := by
  unfold step at h
  split at h
  · rename_i modules store hload
    cases h
    by_cases hpasses : ∃ module, newModule r.bytecode r.version r.caps r.ld = some module ∧ passesGate x.modules name module = true
    · obtain ⟨module, hnew, hgate⟩ := hpasses
      rw [loadModule_hooks env maxLag x.store hnew hgate] at hload
      have hmodules := Modules.runHooks_loaded hload
      have hget : modules[name]? = some module := by rw [hmodules, OrdMap.getElem?_insert, if_pos rfl]
      exact ⟨module, hgate, hget, by rw [version, hget]; rfl⟩
    · have hrefused : ∀ module, newModule r.bytecode r.version r.caps r.ld = some module → passesGate x.modules name module = false :=
        fun module hnew => eq_false_of_ne_true fun hgate => hpasses ⟨module, hnew, hgate⟩
      rcases loadModule_refused env maxLag x.store hrefused with ⟨e, he⟩ | he
      · rw [he] at hload
        cases hload
      · rw [he] at hload
        cases hload
  · cases h
  · cases h

/-- What is deployed came last, and nothing that was deployed is newer than what came after it. -/
structure Inv (V : Set Bytes) (name : Bytes) (x : Redeploys) : Prop where
  last : x.deployed.getLast? = version x.modules name
  sorted : (∀ v ∈ x.deployed, v ∈ V ∧ v ≠ []) → x.deployed.Pairwise fun earlier later => ¬ Older later earlier

theorem inv_boot (V : Set Bytes) (name : Bytes) (modules : StrMap WasmModule) (store : Store) : Inv V name (boot name modules store) := by
  cases hv : version modules name with
  | none => exact ⟨by rw [boot, hv]; rfl, fun _ => by rw [boot, hv]; exact List.Pairwise.nil⟩
  | some v => exact ⟨by rw [boot, hv]; rfl, fun _ => by rw [boot, hv]; exact List.pairwise_singleton _ _⟩

theorem Inv.step (hV : Comparable V) (h : Inv V name x) (hstep : step env maxLag name x r = some x') : Inv V name x' := by
  obtain ⟨module, hgate, hget, hdeployed⟩ := step_spec hstep
  refine ⟨by rw [hdeployed, version, hget, List.getLast?_concat]; rfl, fun hall => ?_⟩
  rw [hdeployed] at hall ⊢
  have hold : ∀ v ∈ x.deployed, v ∈ V ∧ v ≠ [] := fun v hv => hall v (List.mem_append_left _ hv)
  obtain ⟨hnew, hne⟩ := hall module.version (List.mem_append_right _ (List.mem_singleton.2 rfl))
  refine List.pairwise_append.2 ⟨h.sorted hold, List.pairwise_singleton _ _, fun earlier hearlier later hlater => ?_⟩
  rw [List.mem_singleton.1 hlater]
  have hlast := h.last
  cases hprevious : x.modules[name]? with
  | none =>
    rw [version, hprevious, Option.map_none, List.getLast?_eq_none_iff] at hlast
    rw [hlast] at hearlier
    cases hearlier
  | some previous =>
    rw [version, hprevious, Option.map_some] at hlast
    have hin := List.mem_of_getLast? hlast
    rw [passesGate, hprevious] at hgate
    have hcompared : (compareVersions module.version previous.version).any (fun c => 0 ≤ c) = true := by
      simpa [(hold _ hin).2, hne] using hgate
    have hgated : ¬ Older module.version previous.version :=
      (decides_compareVersions (hV.bounded _ hnew) (hV.bounded _ (hold _ hin).1)).zero_le.1 hcompared
    obtain ⟨front, hfront⟩ := List.getLast?_eq_some_iff.1 hlast
    have hsorted := h.sorted hold
    rw [hfront, List.pairwise_append] at hsorted
    rw [hfront] at hearlier
    rcases List.mem_append.1 hearlier with hbefore | hsame
    · have hlower := hsorted.2.2 earlier hbefore previous.version (List.mem_singleton.2 rfl)
      have hmem : earlier ∈ x.deployed := by rw [hfront]; exact List.mem_append_left _ hbefore
      exact older_trans_iff.2 hV.unstraddled earlier (hold _ hmem).1 _ (hold _ hin).1 _ hnew hlower hgated
    · rw [List.mem_singleton.1 hsame]
      exact hgated

theorem Inv.neverLower (hV : Comparable V) (h : Inv V name x) (hall : ∀ v ∈ x.deployed, v ∈ V ∧ v ≠ []) : x.NeverLower := by
  refine (h.sorted hall).imp_of_mem fun hearlier hlater hno => ?_
  exact (decides_compareVersions (hV.bounded _ (hall _ hlater).1) (hV.bounded _ (hall _ hearlier).1)).zero_le.2 hno

end

end Redeploys

/-- **`CompareVersions` orders versions exactly when** none of their numbers is beyond `long` and no text stands between two of
their numbers the wrong way around; **of such versions the gate lets none come back.** -/
theorem versions_ordered_iff (V : Set Bytes) :
    (OrderedOn V ↔ Comparable V) ∧
    (Comparable V → ∀ (env : Env) (maxLag : Nat) (name : Bytes) (modules : StrMap WasmModule) (store : Store) (rs : List Redeploy)
      (x : Redeploys), run (Redeploys.step env maxLag name) (.boot name modules store) rs = some x →
      (∀ v ∈ x.deployed, v ∈ V ∧ v ≠ []) → x.NeverLower) := by
  refine ⟨orderedOn_iff, fun hV env maxLag name modules store rs x hrun hall => ?_⟩
  have hok : Allowed (Redeploys.step env maxLag name) (fun _ _ => True) (.boot name modules store) rs :=
    Allowed.of_forall fun _ _ _ => trivial
  have hinv : Redeploys.Inv V name x := run_invariant (Redeploys.Inv V name)
    (fun _ _ _ h _ hstep => h.step hV hstep) (Redeploys.inv_boot V name modules store) hok hrun
  exact hinv.neverLower hV hall

/-- Two versions, of three numbers each. -/
def patches : Set Bytes := {v | v = str "2.0.9" ∨ v = str "2.0.10"}

theorem dotted_patches : ∀ v ∈ patches, Dotted 3 v := by
  rintro v (rfl | rfl) <;> decide

theorem comparable_patches : Comparable patches := by
  have hnumbers : ∀ v ∈ patches, ∀ i, isNumeric (segment v i) = true ↔ i < 3 := by
    intro v hv i
    have hdot := dotted_patches v hv
    by_cases hi : i < (versionSegments v).length
    · refine iff_of_true ?_ (hdot.length ▸ hi)
      rw [segment, List.getD_eq_getElem _ _ hi]
      exact (hdot.numeric _ (List.getElem_mem hi)).1
    · refine iff_of_false ?_ (hdot.length ▸ hi)
      rw [segment, List.getD_eq_default _ _ (Nat.not_lt.1 hi)]
      decide
  refine ⟨?_, ?_⟩
  · intro v hv s hs _
    exact ((dotted_patches v hv).numeric s hs).2.trans (by decide)
  · rintro x hx y hy z hz ⟨i, -, -, hnum, -, htext, -⟩
    rw [(hnumbers z hz i).2 ((hnumbers x hx i).1 hnum)] at htext
    cases htext

/-- A deploy of a module without hooks. -/
def deploy (version : String) : Redeploy := { bytecode := [0], version := str version }

def deployedModule (version : String) : WasmModule := ⟨[0], str version, {}⟩

theorem step_deploy (x : Redeploys) {version : String} (hne : str version ≠ [])
    (hgate : passesGate x.modules (str "m") (deployedModule version) = true) :
    Redeploys.step oneRowEnv 100000 (str "m") x (deploy version) =
      some ⟨x.modules.insert (str "m") (deployedModule version), x.store, x.deployed ++ [str version]⟩ := by
  have hnew : newModule [0] (str version) {} {} = some (deployedModule version) := by
    rw [newModule, if_neg (by simp)]
    simp only [hne, if_false, deployedModule]
  have hhooks : runHooks oneRowEnv 100000 x.modules (str "m") (deployedModule version) {} x.store =
      .loaded (x.modules.insert (str "m") (deployedModule version)) x.store := by
    rw [runHooks]
    cases x.modules[str "m"]? <;> rfl
  have hload := (loadModule_hooks oneRowEnv 100000 x.store hnew hgate).trans hhooks
  have hversion : Redeploys.version (x.modules.insert (str "m") (deployedModule version)) (str "m") = some (str version) := by
    simp [Redeploys.version, deployedModule]
  rw [Redeploys.step, deploy, hload]
  simp only [hversion, Option.toList_some]

/-- The name serves this version, and these have been deployed. -/
def served (modules : StrMap WasmModule) (version : String) (deployed : List Bytes) : Redeploys :=
  ⟨modules.insert (str "m") (deployedModule version), {}, deployed⟩

theorem step_served (modules : StrMap WasmModule) (deployed : List Bytes) {version version' : String} (hne : str version' ≠ [])
    (hgate : (compareVersions (str version') (str version)).any (fun c => 0 ≤ c) = true) :
    Redeploys.step oneRowEnv 100000 (str "m") (served modules version deployed) (deploy version') =
      some (served (modules.insert (str "m") (deployedModule version)) version' (deployed ++ [str version'])) := by
  refine step_deploy (served modules version deployed) hne ?_
  rw [passesGate, served, OrdMap.getElem?_insert, if_pos rfl]
  exact Bool.or_eq_true_iff.2 (Or.inr hgate)

/-- Versions of one segment. -/
theorem compareVersions_single {a b s t : Bytes} (ha : versionSegments a = [s]) (hb : versionSegments b = [t]) :
    compareVersions a b = compareSegment s t := by
  rw [compareVersions, ha, hb, compareSegments, compareSegments]
  cases compareSegment s t with
  | none => rfl
  | some c =>
    rw [Option.bind_some]
    split
    · rfl
    · rename_i hc
      rw [not_not.1 hc]

theorem versions_ordered_patches : OrderedOn patches ∧
    ∃ x, run (Redeploys.step oneRowEnv 100000 (str "m")) (.boot (str "m") ∅ {}) [deploy "2.0.9", deploy "2.0.10"] = some x ∧
      x.deployed = [str "2.0.9", str "2.0.10"] ∧ x.NeverLower := by
  obtain ⟨horder, hruns⟩ := versions_ordered_iff patches
  have hnewer : (compareVersions (str "2.0.10") (str "2.0.9")).any (fun c => 0 ≤ c) = true :=
    (compareVersions_nonneg (dotted_patches _ (Or.inr rfl)) (dotted_patches _ (Or.inl rfl))).2 (by decide)
  have hfirst : Redeploys.step oneRowEnv 100000 (str "m") (.boot (str "m") ∅ {}) (deploy "2.0.9") =
      some (served ∅ "2.0.9" [str "2.0.9"]) := step_deploy _ (by decide) rfl
  have hrun := (run_cons hfirst [deploy "2.0.10"]).trans (run_cons (step_served _ _ (by decide) hnewer) [])
  refine ⟨horder.2 comparable_patches, _, hrun, rfl, hruns comparable_patches _ _ _ _ _ _ _ hrun fun v hv => ?_⟩
  rcases List.mem_cons.1 hv with rfl | hv
  · exact ⟨Or.inl rfl, by decide⟩
  · rw [List.mem_singleton.1 hv]
    exact ⟨Or.inr rfl, by decide⟩

/-- 9 is below 10, `10` below `1a` and `1a` below `9`, so that a name goes from 10 over `1a` back to 9. And `2 ^ 63` throws. -/
theorem versions_not_ordered : ¬ OrderedOn Set.univ ∧ compareVersions (str "9223372036854775808") (str "1") = none ∧
    compareVersions (str "9") (str "10") = some (-1) ∧ compareVersions (str "10") (str "1a") = some (-1) ∧
    compareVersions (str "1a") (str "9") = some (-1) ∧
    ∃ x, run (Redeploys.step oneRowEnv 100000 (str "m")) (.boot (str "m") ∅ {}) [deploy "10", deploy "1a", deploy "9"] = some x ∧
      ¬ x.NeverLower := by
  have hsegment : ∀ v ∈ ["9223372036854775808", "1", "9", "10", "1a"], versionSegments (str v) = [str v] := by decide
  have hcompare : ∀ v ∈ ["9223372036854775808", "1", "9", "10", "1a"], ∀ w ∈ ["9223372036854775808", "1", "9", "10", "1a"],
      compareVersions (str v) (str w) = compareSegment (str v) (str w) := fun v hv w hw =>
    compareVersions_single (hsegment v hv) (hsegment w hw)
  have hthrows : compareVersions (str "9223372036854775808") (str "1") = none := by
    rw [hcompare _ (by decide) _ (by decide)]
    decide
  have hlower : compareVersions (str "9") (str "10") = some (-1) := by
    rw [hcompare _ (by decide) _ (by decide)]
    decide
  have hup : compareVersions (str "1a") (str "10") = some 1 := by
    rw [hcompare _ (by decide) _ (by decide)]
    decide
  have hback : compareVersions (str "9") (str "1a") = some 1 := by
    rw [hcompare _ (by decide) _ (by decide)]
    decide
  refine ⟨fun h => ?_, hthrows, hlower, ?_, ?_, ?_⟩
  · have hreturns := h.returns (str "9223372036854775808") trivial (str "1") trivial
    rw [hthrows] at hreturns
    cases hreturns
  · rw [hcompare _ (by decide) _ (by decide)]
    decide
  · rw [hcompare _ (by decide) _ (by decide)]
    decide
  · have hfirst : Redeploys.step oneRowEnv 100000 (str "m") (.boot (str "m") ∅ {}) (deploy "10") =
        some (served ∅ "10" [str "10"]) := step_deploy _ (by decide) rfl
    have hsecond := step_served ∅ [str "10"] (by decide) (show (compareVersions (str "1a") (str "10")).any _ = true by rw [hup]; rfl)
    have hthird := step_served ((∅ : StrMap WasmModule).insert (str "m") (deployedModule "10")) ([str "10"] ++ [str "1a"])
      (by decide) (show (compareVersions (str "9") (str "1a")).any _ = true by rw [hback]; rfl)
    have hrun := (run_cons hfirst [deploy "1a", deploy "9"]).trans ((run_cons hsecond [deploy "9"]).trans (run_cons hthird []))
    refine ⟨_, hrun, fun hnever => ?_⟩
    have hlater := (List.pairwise_cons.1 hnever).1 (str "9") (by decide)
    rw [hlower] at hlater
    exact absurd hlater (by decide)

end Wasm

end OriginDB
