import Mathlib.Data.Option.Basic
import Mathlib.Tactic.Common
/-!
# A replica fed by a snapshot and a stream of updates

A store `D` changes one key at a time, and each change goes into a queue as an update that says what the key
holds now. A replica `C` applies the updates in the order of the queue, and once, at any moment, it is
given a snapshot `S` of the store, which was taken some time before. An update that is no older than the
snapshot must not reach the replica ahead of it, unless the snapshot has nothing under that key; then the
replica agrees with the store on every key no update is on its way for (`Follows`).

Updates and rows are whatever they are: `Sets u v` says that `u` gives its key the contents `v`, and
`Agrees v w` that the replica's `w` stands for `v`.
-/
namespace Replica

variable {K V W U : Type} [DecidableEq K]

/-- The last update on a key. -/
def lastOn (key : U → K) (k : K) (us : List U) : Option U := (us.filter fun u => key u = k).getLast?

section Last
variable {key : U → K} {k : K} {u : U} {us : List U}

theorem lastOn_concat : lastOn key k (us ++ [u]) = if key u = k then some u else lastOn key k us := by
  unfold lastOn
  rw [List.filter_append]
  by_cases h : key u = k
  · simp [h]
  · simp [h]

theorem lastOn_cons : lastOn key k (u :: us) = (lastOn key k us).or (if key u = k then some u else none) := by
  unfold lastOn
  by_cases h : key u = k
  · rw [List.filter_cons_of_pos (by simpa using h), List.getLast?_cons, if_pos h]
    cases (us.filter fun u => key u = k).getLast? <;> rfl
  · rw [List.filter_cons_of_neg (by simpa using h), if_neg h, Option.or_none]

theorem lastOn_append_of_none {vs : List U} (h : lastOn key k (us ++ vs) = none) : lastOn key k us = none ∧ lastOn key k vs = none := by
  unfold lastOn at h ⊢
  rw [List.filter_append, List.getLast?_eq_none_iff, List.append_eq_nil_iff] at h
  exact ⟨by rw [h.1]; rfl, by rw [h.2]; rfl⟩

theorem lastOn_ne_none_of_append {vs : List U} (h : lastOn key k vs ≠ none) : lastOn key k (us ++ vs) ≠ none :=
  fun hn => h (lastOn_append_of_none hn).2

end Last

section
variable (key : U → K) (Sets : U → Option V → Prop) (Agrees : V → W → Prop)

/-- The updates on their way end with what the store holds. -/
def Current (D : K → Option V) (us : List U) : Prop := ∀ k u, lastOn key k us = some u → Sets u (D k)

/-- No snapshot yet: what the replica has, it has from updates. -/
def Gathers (D : K → Option V) (C : K → Option W) (us : List U) : Prop :=
  ∀ k, lastOn key k us = none → C k = none ∨ Option.Rel Agrees (D k) (C k)

/-- A snapshot has been taken, with `old` on their way; `new` came since. -/
structure Awaits (D : K → Option V) (S : K → Option V) (C : K → Option W) (old new : List U) : Prop where
  missing : ∀ k, lastOn key k (old ++ new) = none → S k = none → Option.Rel Agrees (D k) (C k)
  taken : ∀ k v, S k = some v → D k = some v ∨ lastOn key k new ≠ none

/-- The snapshot has arrived. -/
def Follows (D : K → Option V) (C : K → Option W) (us : List U) : Prop :=
  ∀ k, lastOn key k us = none → Option.Rel Agrees (D k) (C k)

/-- The replica has applied `u`. -/
structure Applies (u : U) (C C' : K → Option W) : Prop where
  self : ∀ v, Sets u v → Option.Rel Agrees v (C' (key u))
  other : ∀ k, key u ≠ k → C' k = C k

end

section Steps
variable {key : U → K} {Sets : U → Option V → Prop} {Agrees : V → W → Prop} {D D' S : K → Option V} {C C' : K → Option W}
  {us old new : List U} {u : U} {v : Option V}

/-! ## The store changes -/

theorem Current.write (h : Current key Sets D us) (hu : Sets u v) (hD : ∀ k, D' k = if key u = k then v else D k) :
    Current key Sets D' (us ++ [u]) := by
  intro k w hw
  rw [lastOn_concat] at hw
  rw [hD]
  by_cases hk : key u = k
  · rw [if_pos hk] at hw ⊢
    cases hw
    exact hu
  · rw [if_neg hk] at hw ⊢
    exact h k w hw

theorem Gathers.write (h : Gathers key Agrees D C us) (hD : ∀ k, D' k = if key u = k then v else D k) :
    Gathers key Agrees D' C (us ++ [u]) := by
  intro k hk
  rw [lastOn_concat] at hk
  rw [hD]
  by_cases hu : key u = k
  · simp [hu] at hk
  · rw [if_neg hu] at hk ⊢
    exact h k hk

theorem Awaits.write (h : Awaits key Agrees D S C old new) (hD : ∀ k, D' k = if key u = k then v else D k) :
    Awaits key Agrees D' S C old (new ++ [u]) := by
  constructor
  · intro k hk hS
    rw [← List.append_assoc, lastOn_concat] at hk
    rw [hD]
    by_cases hu : key u = k
    · simp [hu] at hk
    · rw [if_neg hu] at hk ⊢
      exact h.missing k hk hS
  · intro k row hS
    rw [hD, lastOn_concat]
    by_cases hu : key u = k
    · exact Or.inr (by simp [hu])
    · rw [if_neg hu, if_neg hu]
      exact h.taken k row hS

theorem Follows.write (h : Follows key Agrees D C us) (hD : ∀ k, D' k = if key u = k then v else D k) :
    Follows key Agrees D' C (us ++ [u]) := by
  intro k hk
  rw [lastOn_concat] at hk
  rw [hD]
  by_cases hu : key u = k
  · simp [hu] at hk
  · rw [if_neg hu] at hk ⊢
    exact h k hk

/-! ## An update arrives -/

theorem Current.tail (h : Current key Sets D (u :: us)) : Current key Sets D us := by
  intro k w hw
  refine h k w ?_
  rw [lastOn_cons, hw]
  rfl

/-- What has just been applied is current, if nothing else is on its way for that key. -/
theorem Current.applied (h : Current key Sets D (u :: us)) (ha : Applies key Sets Agrees u C C')
    (hk : lastOn key (key u) us = none) : Option.Rel Agrees (D (key u)) (C' (key u)) := by
  refine ha.self _ (h (key u) u ?_)
  rw [lastOn_cons, hk, if_pos rfl]
  rfl

theorem Gathers.receive (h : Gathers key Agrees D C (u :: us)) (hc : Current key Sets D (u :: us))
    (ha : Applies key Sets Agrees u C C') : Gathers key Agrees D C' us := by
  intro k hk
  by_cases hu : key u = k
  · subst hu
    exact Or.inr (hc.applied ha hk)
  · rw [ha.other k hu]
    refine h k ?_
    rw [lastOn_cons, hk, if_neg hu]
    rfl

theorem Follows.receive (h : Follows key Agrees D C (u :: us)) (hc : Current key Sets D (u :: us))
    (ha : Applies key Sets Agrees u C C') : Follows key Agrees D C' us := by
  intro k hk
  by_cases hu : key u = k
  · subst hu
    exact hc.applied ha hk
  · rw [ha.other k hu]
    refine h k ?_
    rw [lastOn_cons, hk, if_neg hu]
    rfl

theorem Awaits.missing_receive (hm : ∀ k, lastOn key k (u :: us) = none → S k = none → Option.Rel Agrees (D k) (C k))
    (hc : Current key Sets D (u :: us)) (ha : Applies key Sets Agrees u C C') :
    ∀ k, lastOn key k us = none → S k = none → Option.Rel Agrees (D k) (C' k) := by
  intro k hk hS
  by_cases hu : key u = k
  · subst hu
    exact hc.applied ha hk
  · rw [ha.other k hu]
    refine hm k ?_ hS
    rw [lastOn_cons, hk, if_neg hu]
    rfl

/-- An update that is older than the snapshot. -/
theorem Awaits.receive_old (h : Awaits key Agrees D S C (u :: old) new) (hc : Current key Sets D (u :: old ++ new))
    (ha : Applies key Sets Agrees u C C') : Awaits key Agrees D S C' old new :=
  ⟨Awaits.missing_receive h.missing hc ha, h.taken⟩

/-- One that is not, for a key the snapshot has nothing under. -/
theorem Awaits.receive_new (h : Awaits key Agrees D S C [] (u :: new)) (hc : Current key Sets D (u :: new))
    (ha : Applies key Sets Agrees u C C') (hS : S (key u) = none) : Awaits key Agrees D S C' [] new := by
  refine ⟨Awaits.missing_receive h.missing hc ha, ?_⟩
  intro k v hv
  rcases h.taken k v hv with hD | hlast
  · exact Or.inl hD
  · have hu : key u ≠ k := by
      rintro rfl
      rw [hS] at hv
      cases hv
    rw [lastOn_cons, if_neg hu, Option.or_none] at hlast
    exact Or.inr hlast

/-! ## The snapshot -/

theorem Gathers.snapshot (h : Gathers key Agrees D C us) : Awaits key Agrees D D C us [] := by
  refine ⟨?_, fun k v hv => Or.inl hv⟩
  intro k hk hD
  rw [List.append_nil] at hk
  rcases h k hk with hC | hrel
  · rw [hC, hD]
    exact .none
  · exact hrel

/-- **The snapshot arrives** in time. -/
theorem Awaits.arrive (h : Awaits key Agrees D S C old new) (hset : ∀ k v, S k = some v → Option.Rel Agrees (some v) (C' k))
    (hkeep : ∀ k, S k = none → C' k = C k) : Follows key Agrees D C' (old ++ new) := by
  intro k hk
  cases hS : S k with
  | none =>
    rw [hkeep k hS]
    exact h.missing k hk hS
  | some v =>
    rcases h.taken k v hS with hD | hlast
    · rw [hD]
      exact hset k v hS
    · exact absurd hk (lastOn_ne_none_of_append hlast)

end Steps

end Replica
