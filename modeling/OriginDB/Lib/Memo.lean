import OriginDB.Lib.OrdMap
/-!
# A memo table beside a map

`cache` holds what `f` gives for some of the values of `m`, under their keys, and is filled when it is asked. It is fresh
when every entry is of a live key and is what `f` gives for the value there now. Forgetting a key whenever its value is
written keeps it fresh, and then asking it is asking `f` (`Fresh.ask`), also in a loop over the entries that a callback
may stop (`Fresh.visit`). `f` may fail.
-/
namespace Memo

open Std

variable {α β γ σ : Type} {cmp : α → α → Ordering} [TransCmp cmp] [LawfulEqCmp cmp] [DecidableEq α]

/-- What a callback says of going on. -/
inductive Answer where
  | goOn | stop | fail
deriving DecidableEq

/-- The entry, filled when it is missing; `none` when `f` fails. -/
def ask (f : β → Option γ) (cache : ExtTreeMap α γ cmp) (k : α) (v : β) : Option γ × ExtTreeMap α γ cmp :=
  match cache[k]? with
  | some j => (some j, cache)
  | none => match f v with
    | none => (none, cache)
    | some j => (some j, cache.insert k j)

/-- A loop over entries with a callback that keeps a state: whether it ended by a failure, and the state. -/
def visit (callback : α → β → σ → Answer × σ) : List (α × β) → σ → Bool × σ
  | [], s => (false, s)
  | (k, v) :: rest, s =>
    match callback k v s with
    | (.goOn, s') => visit callback rest s'
    | (.stop, s') => (false, s')
    | (.fail, s') => (true, s')

/-- The callback on what `f` gives. -/
def through (f : β → Option γ) (callback : α → γ → σ → Answer × σ) (k : α) (v : β) (s : σ) : Answer × σ :=
  match f v with
  | none => (.fail, s)
  | some j => callback k j s

/-- The loop that asks the memo table. -/
def visitAsking (f : β → Option γ) (callback : α → γ → σ → Answer × σ) :
    List (α × β) → ExtTreeMap α γ cmp → σ → (Bool × σ) × ExtTreeMap α γ cmp
  | [], cache, s => ((false, s), cache)
  | (k, v) :: rest, cache, s =>
    match ask f cache k v with
    | (none, cache') => ((true, s), cache')
    | (some j, cache') => match callback k j s with
      | (.goOn, s') => visitAsking f callback rest cache' s'
      | (.stop, s') => ((false, s'), cache')
      | (.fail, s') => ((true, s'), cache')

/-- Every entry is of a live key, and is what `f` gives for the value there. -/
def Fresh (f : β → Option γ) (m : ExtTreeMap α β cmp) (cache : ExtTreeMap α γ cmp) : Prop :=
  ∀ (k : α) (j : γ), cache[k]? = some j → ∃ v, m[k]? = some v ∧ f v = some j

variable {f : β → Option γ} {m : ExtTreeMap α β cmp} {cache : ExtTreeMap α γ cmp} {k : α} {v : β}

omit [LawfulEqCmp cmp] [DecidableEq α] in
theorem Fresh.empty (f : β → Option γ) (m : ExtTreeMap α β cmp) : Fresh f m ∅ := by
  intro k j h
  simp at h

/-- A value is written and its entry forgotten. -/
theorem Fresh.insert (h : Fresh f m cache) (k : α) (v : β) : Fresh f (m.insert k v) (cache.erase k) := by
  intro a j ha
  rw [OrdMap.getElem?_erase] at ha
  split at ha
  · cases ha
  · rename_i hne
    rw [OrdMap.getElem?_insert, if_neg hne]
    exact h a j ha

theorem Fresh.erase (h : Fresh f m cache) (k : α) : Fresh f (m.erase k) (cache.erase k) := by
  intro a j ha
  rw [OrdMap.getElem?_erase] at ha
  split at ha
  · cases ha
  · rename_i hne
    rw [OrdMap.getElem?_erase, if_neg hne]
    exact h a j ha

/-- **Asking the memo table is asking `f`.** -/
theorem Fresh.ask (h : Fresh f m cache) (hk : m[k]? = some v) :
    (Memo.ask f cache k v).1 = f v ∧ Fresh f m (Memo.ask f cache k v).2 := by
  unfold Memo.ask
  cases hc : cache[k]? with
  | some j =>
    obtain ⟨v', hv', hj⟩ := h k j hc
    rw [hk, Option.some.injEq] at hv'
    subst hv'
    exact ⟨hj.symm, h⟩
  | none =>
    cases hf : f v with
    | none => exact ⟨rfl, h⟩
    | some j =>
      refine ⟨rfl, ?_⟩
      intro a i ha
      rw [OrdMap.getElem?_insert] at ha
      split at ha
      · rename_i hka
        subst hka
        rw [Option.some.injEq] at ha
        subst ha
        exact ⟨v, hk, hf⟩
      · exact h a i ha

/-- **A loop over entries of the map** sees what `f` gives for each, until the callback stops it. -/
theorem Fresh.visit (callback : α → γ → σ → Answer × σ) {l : List (α × β)} (h : Fresh f m cache)
    (hl : ∀ p ∈ l, m[p.1]? = some p.2) (s : σ) :
    (visitAsking f callback l cache s).1 = Memo.visit (through f callback) l s ∧
      Fresh f m (visitAsking f callback l cache s).2 := by
  induction l generalizing cache s with
  | nil => exact ⟨rfl, h⟩
  | cons p l ih =>
    obtain ⟨k, v⟩ := p
    have hk : m[k]? = some v := hl (k, v) (by simp)
    obtain ⟨hask, hfresh⟩ := h.ask hk
    simp only [visitAsking, Memo.visit, through]
    cases hpair : Memo.ask f cache k v with
    | mk j cache' =>
      rw [hpair] at hask hfresh
      simp only at hask hfresh
      subst hask
      cases hf : f v with
      | none => exact ⟨rfl, hfresh⟩
      | some j =>
        simp only
        cases hcall : callback k j s with
        | mk answer s' =>
          cases answer with
          | goOn => exact ih hfresh (fun p hp => hl p (by simp [hp])) s'
          | stop => exact ⟨rfl, hfresh⟩
          | fail => exact ⟨rfl, hfresh⟩

end Memo
