import Mathlib.Tactic.Common
/-!
# Programs that look where there may be nothing

A program ends with a value, with an exception, or by looking where there is nothing: at the front of an empty string, at
an element a vector does not have. An exception can be caught; the third ending is no exception and nothing catches it.
-/

inductive Access (α : Type) where
  | value (a : α)
  | threw
  | nowhere
deriving DecidableEq

namespace Access

variable {α β : Type}

protected def bind (m : Access α) (f : α → Access β) : Access β :=
  match m with
  | value a => f a
  | threw => threw
  | nowhere => nowhere

instance : Monad Access where
  pure := value
  bind := Access.bind

@[simp] theorem pure_eq (a : α) : (pure a : Access α) = value a := rfl

@[simp] theorem value_bind (a : α) (f : α → Access β) : value a >>= f = f a := rfl

@[simp] theorem threw_bind (f : α → Access β) : (threw >>= f) = threw := rfl

@[simp] theorem nowhere_bind (f : α → Access β) : (nowhere >>= f) = nowhere := rfl

instance : LawfulMonad Access := LawfulMonad.mk' Access
  (by intro _ m; cases m <;> rfl)
  (by intro _ _ _ _; rfl)
  (by intro _ _ _ m _ _; cases m <;> rfl)

/-- `try … catch (...)`. -/
def catching (m handler : Access α) : Access α :=
  match m with
  | threw => handler
  | m => m

/-- A call that throws where it has no answer. -/
def ofOption : Option α → Access α
  | some a => value a
  | none => threw

/-- The first element of a container, `front()` or `[0]`. -/
def front : List α → Access α
  | x :: _ => value x
  | [] => nowhere

/-- The last element. -/
def back (l : List α) : Access α :=
  match l.getLast? with
  | some x => value x
  | none => nowhere

@[simp] theorem catching_value (a : α) (h : Access α) : (value a).catching h = value a := rfl

@[simp] theorem catching_threw (h : Access α) : threw.catching h = h := rfl

@[simp] theorem catching_nowhere (h : Access α) : nowhere.catching h = nowhere := rfl

@[simp] theorem ofOption_some (a : α) : ofOption (some a) = value a := rfl

@[simp] theorem ofOption_none : ofOption (none : Option α) = threw := rfl

@[simp] theorem front_cons (x : α) (l : List α) : front (x :: l) = value x := rfl

@[simp] theorem front_nil : front ([] : List α) = nowhere := rfl

/-- A loop that looks at each element comes to an end exactly when each of them can be looked at. -/
theorem mapM_guarded {f : α → Access β} {p : α → Prop} [DecidablePred p] {g : α → β}
    (h : ∀ x, f x = if p x then value (g x) else nowhere) (l : List α) :
    l.mapM f = if ∀ x ∈ l, p x then value (l.map g) else nowhere := by
  induction l with
  | nil => simp
  | cons x l ih =>
    rw [List.mapM_cons, h, ih]
    by_cases hx : p x
    · by_cases hl : ∀ y ∈ l, p y
      · rw [if_pos hx, if_pos hl, if_pos (by simpa using ⟨hx, hl⟩)]
        rfl
      · rw [if_pos hx, if_neg hl, if_neg fun hall => hl fun y hy => hall y (List.mem_cons_of_mem _ hy)]
        rfl
    · rw [if_neg hx, nowhere_bind, if_neg fun hall => hx (hall x List.mem_cons_self)]

end Access
