import Mathlib.Data.Nat.Find
import Mathlib.Tactic.Common
/-!
# Sequences in the order of their first difference

Of any two entries one is lower, or they are the same (`Trichotomy`); that lower is transitive is not asked for. A sequence is
before another (`Before`) if its entry is the lower one in the first place where they are not the same. This is an order
exactly when no three sequences make a knot: in the first place where they are not all the same, two of them stand around the
third the wrong way (`weakOrder_iff`).
-/
namespace FirstDifference

variable {α : Type}

structure Trichotomy (lower same : α → α → Prop) : Prop where
  equivalence : Equivalence same
  asymm : ∀ a b, lower a b → ¬ lower b a
  not_same : ∀ a b, lower a b → ¬ same a b
  total : ∀ a b, lower a b ∨ same a b ∨ lower b a

section
variable (lower same : α → α → Prop)

/-- The sequences are the same up to a place. -/
def AgreeTo (i : Nat) (f g : Nat → α) : Prop := ∀ j < i, same (f j) (g j)

def Before (f g : Nat → α) : Prop := ∃ i, AgreeTo same i f g ∧ lower (f i) (g i)

/-- The entry of `h` is above that of `g` and below that of `f`, where `g` is not before `f`. -/
def Knot (f g h : Nat → α) : Prop :=
  ∃ i, AgreeTo same i f g ∧ AgreeTo same i g h ∧ lower (g i) (h i) ∧ lower (h i) (f i) ∧ ¬ Before lower same g f

end

section
variable {lower same : α → α → Prop} {f g h : Nat → α} {i : Nat}

theorem Trichotomy.irrefl (ht : Trichotomy lower same) (a : α) : ¬ lower a a := fun ha => ht.asymm a a ha ha

theorem AgreeTo.symm (ht : Trichotomy lower same) (hfg : AgreeTo same i f g) : AgreeTo same i g f := by
  intro j hj
  exact ht.equivalence.symm (hfg j hj)

theorem AgreeTo.trans (ht : Trichotomy lower same) (hfg : AgreeTo same i f g) (hgh : AgreeTo same i g h) : AgreeTo same i f h := by
  intro j hj
  exact ht.equivalence.trans (hfg j hj) (hgh j hj)

/-- Two differences cannot both be the first. -/
theorem Before.asymm (ht : Trichotomy lower same) (hfg : Before lower same f g) : ¬ Before lower same g f := by
  rintro ⟨j, hagree', hlower'⟩
  obtain ⟨i, hagree, hlower⟩ := hfg
  rcases Nat.lt_trichotomy i j with hij | rfl | hij
  · exact ht.not_same _ _ hlower (ht.equivalence.symm (hagree' i hij))
  · exact ht.asymm _ _ hlower hlower'
  · exact ht.not_same _ _ hlower' (ht.equivalence.symm (hagree j hij))

/-- The first entries decide, or the rest. -/
theorem before_iff : Before lower same f g ↔
    lower (f 0) (g 0) ∨ (same (f 0) (g 0) ∧ Before lower same (fun i => f (i + 1)) (fun i => g (i + 1))) := by
  constructor
  · rintro ⟨i, hagree, hlower⟩
    cases i with
    | zero => exact Or.inl hlower
    | succ i => exact Or.inr ⟨hagree 0 (Nat.succ_pos i), i, fun j hj => hagree (j + 1) (Nat.succ_lt_succ hj), hlower⟩
  · rintro (hlower | ⟨hsame, i, hagree, hlower⟩)
    · exact ⟨0, fun j hj => absurd hj (Nat.not_lt_zero j), hlower⟩
    · refine ⟨i + 1, fun j hj => ?_, hlower⟩
      cases j with
      | zero => exact hsame
      | succ j => exact hagree j (Nat.lt_of_succ_lt_succ hj)

/-- What is said of a place where sequences agree so far. -/
theorem before_at (hagree : AgreeTo same i f g) (hlower : lower (f i) (g i)) : Before lower same f g := ⟨i, hagree, hlower⟩

/-- A cycle makes a knot, in one of its three readings. -/
theorem exists_knot (ht : Trichotomy lower same) (hgf : ¬ Before lower same g f) (hhg : ¬ Before lower same h g)
    (hhf : Before lower same h f) : Knot lower same f g h ∨ Knot lower same g h f ∨ Knot lower same h f g := by
  classical
  have hfh := hhf.asymm ht
  have hdiffer : ∃ i, ¬ (same (f i) (g i) ∧ same (g i) (h i)) := by
    by_contra hnone
    obtain ⟨i, -, hlower⟩ := hhf
    have hboth := not_not.1 (not_exists.1 hnone i)
    exact ht.not_same _ _ hlower (ht.equivalence.symm (ht.equivalence.trans hboth.1 hboth.2))
  obtain ⟨i, hnot, hbefore⟩ : ∃ i, ¬ (same (f i) (g i) ∧ same (g i) (h i)) ∧ ∀ j < i, same (f j) (g j) ∧ same (g j) (h j) :=
    ⟨Nat.find hdiffer, Nat.find_spec hdiffer, fun j hj => not_not.1 (Nat.find_min hdiffer hj)⟩
  have hfg : AgreeTo same i f g := fun j hj => (hbefore j hj).1
  have hgh : AgreeTo same i g h := fun j hj => (hbefore j hj).2
  have hhf' : AgreeTo same i h f := (hfg.trans ht hgh).symm ht
  -- no entry goes up around the cycle
  have hdown : lower (f i) (g i) ∨ same (f i) (g i) := by
    rcases ht.total (f i) (g i) with hl | hs | hl
    · exact Or.inl hl
    · exact Or.inr hs
    · exact absurd (before_at (hfg.symm ht) hl) hgf
  have hdown' : lower (g i) (h i) ∨ same (g i) (h i) := by
    rcases ht.total (g i) (h i) with hl | hs | hl
    · exact Or.inl hl
    · exact Or.inr hs
    · exact absurd (before_at (hgh.symm ht) hl) hhg
  have hdown'' : lower (h i) (f i) ∨ same (h i) (f i) := by
    rcases ht.total (h i) (f i) with hl | hs | hl
    · exact Or.inl hl
    · exact Or.inr hs
    · exact absurd (before_at (hhf'.symm ht) hl) hfh
  rcases hdown with hl | hs
  · rcases hdown' with hl' | hs'
    · exact Or.inr (Or.inr ⟨i, hhf', hfg, hl, hl', hfh⟩)
    · rcases hdown'' with hl'' | hs''
      · exact Or.inr (Or.inl ⟨i, hgh, hhf', hl'', hl, hhg⟩)
      · exact absurd (ht.equivalence.symm (ht.equivalence.trans hs' hs'')) (ht.not_same _ _ hl)
  · rcases hdown' with hl' | hs'
    · rcases hdown'' with hl'' | hs''
      · exact Or.inl ⟨i, hfg, hgh, hl', hl'', hgf⟩
      · exact absurd (ht.equivalence.symm (ht.equivalence.trans hs'' hs)) (ht.not_same _ _ hl')
    · exact absurd ⟨hs, hs'⟩ hnot

/-- **The order of the first difference is one exactly when** no three sequences make a knot. -/
theorem weakOrder_iff (ht : Trichotomy lower same) (S : Set (Nat → α)) :
    (∀ f ∈ S, ∀ g ∈ S, ∀ h ∈ S, ¬ Before lower same g f → ¬ Before lower same h g → ¬ Before lower same h f) ↔
      ∀ f ∈ S, ∀ g ∈ S, ∀ h ∈ S, ¬ Knot lower same f g h := by
  constructor
  · rintro htrans f hf g hg h hh ⟨i, hfg, hgh, hlower, hlower', hgf⟩
    have hbefore := before_at hgh hlower
    have hback := before_at ((hfg.trans ht hgh).symm ht) hlower'
    exact htrans f hf g hg h hh hgf (hbefore.asymm ht) hback
  · intro hknot f hf g hg h hh hgf hhg hhf
    rcases exists_knot ht hgf hhg hhf with hk | hk | hk
    · exact hknot f hf g hg h hh hk
    · exact hknot g hg h hh f hf hk
    · exact hknot h hh f hf g hg hk

end

end FirstDifference
