import Mathlib.Data.List.Induction
import Mathlib.Tactic.Common
/-!
# Runs of an executable transition system

`step s l` is the state after label `l`, or `none` when `l` is not enabled in `s`. A run is a list of
labels; `Allowed ok` restricts a run to steps that are taken in a state where `ok` permits them.
`run_invariant` is the one induction every safety proof over runs uses, `run_steps` its form for what is
said about each step of a run.
-/
namespace Machine

variable {S L : Type} (step : S → L → Option S)

def run : S → List L → Option S
  | s, [] => some s
  | s, l :: ls => match step s l with
    | none => none
    | some s' => run s' ls

/-- Every label of the run is taken in a state where `ok` permits it. -/
def Allowed (ok : S → L → Prop) : S → List L → Prop
  | _, [] => True
  | s, l :: ls => ok s l ∧ match step s l with
    | none => True
    | some s' => Allowed ok s' ls

instance Allowed.decidable (ok : S → L → Prop) [∀ s l, Decidable (ok s l)] :
    ∀ (s : S) (ls : List L), Decidable (Allowed step ok s ls)
  | _, [] => isTrue trivial
  | s, l :: ls =>
    have : Decidable (match step s l with
        | none => True
        | some s' => Allowed step ok s' ls) :=
      match step s l with
      | none => isTrue trivial
      | some s' => Allowed.decidable ok s' ls
    inferInstanceAs (Decidable (_ ∧ _))

/-- Every step of the run satisfies `Q`. -/
def Steps (Q : S → L → S → Prop) : S → List L → Prop
  | _, [] => True
  | s, l :: ls => match step s l with
    | none => True
    | some s' => Q s l s' ∧ Steps Q s' ls

variable {step}

@[simp] theorem run_nil (s : S) : run step s [] = some s := rfl

theorem run_cons {s s' : S} {l : L} (h : step s l = some s') (ls : List L) : run step s (l :: ls) = run step s' ls := by
  rw [run, h]

theorem run_append (s : S) (ls ms : List L) : run step s (ls ++ ms) = (run step s ls).bind fun t => run step t ms := by
  induction ls generalizing s with
  | nil => rfl
  | cons l ls ih =>
    simp only [List.cons_append, run]
    cases step s l with
    | none => rfl
    | some s' => exact ih s'

/-- **The invariant rule.** What every permitted step preserves holds at the end of every permitted run. -/
theorem run_invariant {ok : S → L → Prop} (I : S → Prop)
    (hstep : ∀ s l s', I s → ok s l → step s l = some s' → I s') :
    ∀ {s t : S} {ls : List L}, I s → Allowed step ok s ls → run step s ls = some t → I t
  | s, t, [], hs, _, hr => by
    simp only [run, Option.some.injEq] at hr
    subst hr; exact hs
  | s, t, l :: ls, hs, ha, hr => by
    simp only [run] at hr
    simp only [Allowed] at ha
    cases h : step s l with
    | none => simp [h] at hr
    | some s' =>
      simp only [h] at hr ha
      exact run_invariant I hstep (hstep s l s' hs ha.1 h) ha.2 hr

theorem Allowed.of_append {ok : S → L → Prop} {s : S} {ls ms : List L} (h : Allowed step ok s (ls ++ ms)) :
    Allowed step ok s ls ∧ ∀ t, run step s ls = some t → Allowed step ok t ms := by
  induction ls generalizing s with
  | nil =>
    refine ⟨trivial, ?_⟩
    intro t ht
    cases ht
    exact h
  | cons l ls ih =>
    simp only [List.cons_append, Allowed, run] at h ⊢
    cases hs : step s l with
    | none => simp [h.1]
    | some s' =>
      simp only [hs] at h
      exact ⟨⟨h.1, (ih h.2).1⟩, (ih h.2).2⟩

/-- The invariant rule for what is said of a state and of the steps that led there. -/
theorem history_invariant {ok : S → L → Prop} {s : S} (I : List L → S → Prop) (hinit : I [] s)
    (hstep : ∀ ls t l t', run step s ls = some t → I ls t → ok t l → step t l = some t' → I (ls ++ [l]) t')
    {ls : List L} {t : S} (ha : Allowed step ok s ls) (hr : run step s ls = some t) : I ls t := by
  induction ls using List.reverseRecOn generalizing t with
  | nil =>
    cases hr
    exact hinit
  | append_singleton ls l ih =>
    obtain ⟨hls, hl⟩ := ha.of_append
    rw [run_append] at hr
    obtain ⟨u, hu, hlast⟩ := Option.bind_eq_some_iff.1 hr
    simp only [run] at hlast
    cases hs : step u l with
    | none => simp [hs] at hlast
    | some u' =>
      simp only [hs, Option.some.injEq] at hlast
      subst hlast
      exact hstep ls u l u' hu (ih hls hu) (hl u hu).1 hs

/-- What every permitted step from a state with the invariant satisfies, every step of a permitted run does. -/
theorem run_steps {ok : S → L → Prop} {Q : S → L → S → Prop} (I : S → Prop)
    (hstep : ∀ s l s', I s → ok s l → step s l = some s' → I s' ∧ Q s l s') :
    ∀ {s : S} {ls : List L}, I s → Allowed step ok s ls → Steps step Q s ls
  | _, [], _, _ => trivial
  | s, l :: ls, hs, ha => by
    simp only [Allowed] at ha
    simp only [Steps]
    cases h : step s l with
    | none => trivial
    | some s' =>
      simp only [h] at ha
      obtain ⟨hs', hq⟩ := hstep s l s' hs ha.1 h
      exact ⟨hq, run_steps I hstep hs' ha.2⟩

/-- One step in the middle of a run. -/
theorem Steps.of_append {Q : S → L → S → Prop} {s t t' : S} {ls ms : List L} {l : L}
    (h : Steps step Q s (ls ++ l :: ms)) (hr : run step s ls = some t) (hl : step t l = some t') : Q t l t' := by
  induction ls generalizing s with
  | nil =>
    cases hr
    simp only [List.nil_append, Steps, hl] at h
    exact h.1
  | cons m ls ih =>
    simp only [run] at hr
    simp only [List.cons_append, Steps] at h
    cases hm : step s m with
    | none => simp [hm] at hr
    | some s' =>
      simp only [hm] at hr h
      exact ih h.2 hr

/-- A run of labels that are permitted in every state. -/
theorem Allowed.of_forall {ok : S → L → Prop} :
    ∀ {s : S} {ls : List L}, (∀ l ∈ ls, ∀ s, ok s l) → Allowed step ok s ls
  | _, [], _ => trivial
  | s, l :: ls, h => by
    simp only [Allowed]
    refine ⟨h l (by simp) s, ?_⟩
    cases step s l with
    | none => trivial
    | some s' => exact Allowed.of_forall fun l' hl' => h l' (by simp [hl'])

theorem Allowed.and {ok ok' : S → L → Prop} : ∀ {s : S} {ls : List L}, Allowed step ok s ls → Allowed step ok' s ls →
    Allowed step (fun s l => ok s l ∧ ok' s l) s ls
  | _, [], _, _ => trivial
  | s, l :: ls, h, h' => by
    simp only [Allowed] at h h' ⊢
    refine ⟨⟨h.1, h'.1⟩, ?_⟩
    cases hs : step s l with
    | none => trivial
    | some s' =>
      simp only [hs] at h h'
      exact h.2.and h'.2

/-- A run and another one after it, with what permits both. -/
theorem run_append_allowed {ok : S → L → Prop} {s t u : S} {ls ms : List L} (ha : Allowed step ok s ls) (hr : run step s ls = some t)
    (ha' : Allowed step ok t ms) (hr' : run step t ms = some u) :
    Allowed step ok s (ls ++ ms) ∧ run step s (ls ++ ms) = some u := by
  refine ⟨?_, by rw [run_append, hr]; exact hr'⟩
  induction ls generalizing s with
  | nil =>
    cases hr
    exact ha'
  | cons l ls ih =>
    simp only [run] at hr
    simp only [List.cons_append, Allowed] at ha ⊢
    refine ⟨ha.1, ?_⟩
    cases hs : step s l with
    | none => trivial
    | some s' =>
      simp only [hs] at ha hr
      exact ih ha.2 hr

/-- One step as a run. -/
theorem run_singleton {ok : S → L → Prop} {s t : S} {l : L} (hok : ok s l) (hs : step s l = some t) :
    Allowed step ok s [l] ∧ run step s [l] = some t := by
  simp [Allowed, run, hs, hok]

end Machine
