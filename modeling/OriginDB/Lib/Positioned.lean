import Mathlib.Tactic.Common
/-!
# Readers with a position in a buffer

A reader looks at a buffer from its position on and moves the position. It ends with a value, by refusing what it reads, by
looking outside the buffer, or not at all within the steps it is given; nothing catches the last two. What it does depends
on what stands at its position only: `Reads r s a t` says that `r` reads `a` from the front of `s` and stops in front of
`t`, `Rejects r s` that it refuses `s`, `Takes r s P` that one of the two is so, with what has been passed over in `P`. All
compose along `>>=`. `Decodes r bs a` is the case in which what follows does not matter. `Stays r`: from a position within
the buffer, `r` refuses or leaves the position within it. `Gives r P`: what `r` returns is in `P`, wherever it is.
-/
namespace Positioned

structure Buffer (γ : Type) where
  data : List γ
  position : Nat := 0
deriving DecidableEq

/-- How many elements are left. -/
def Buffer.remaining {γ : Type} (b : Buffer γ) : Nat := b.data.length - b.position

inductive Failure (ε : Type) where
  | threw (what : ε)
  | outside
  | unfinished
deriving DecidableEq

abbrev Reading (γ ε : Type) := StateT (Buffer γ) (Except (Failure ε))

variable {γ ε α β : Type}

def Reading.throw (what : ε) : Reading γ ε α := fun _ => .error (.threw what)

/-- No step is left. -/
def Reading.unfinished : Reading γ ε α := fun _ => .error .unfinished

/-- The element at a place. -/
def element (i : Nat) : Reading γ ε γ := fun b =>
  match b.data[i]? with
  | some c => .ok (c, b)
  | none => .error .outside

/-- Throws where fewer than `n` elements are left. -/
def ensureAvailable (n : Nat) (what : ε) : Reading γ ε Unit := fun b =>
  if b.position + n > b.data.length then .error (.threw what) else .ok ((), b)

/-- The `n` elements at the position. -/
def slice (n : Nat) : Reading γ ε (List γ) := fun b =>
  if b.position + n ≤ b.data.length then .ok ((b.data.drop b.position).take n, b) else .error .outside

def advance (n : Nat) : Reading γ ε Unit := fun b => .ok ((), { b with position := b.position + n })

/-- The next `n` elements, looked at only where they are there. -/
def take (n : Nat) (what : ε) : Reading γ ε (List γ) := do
  ensureAvailable n what
  let bs ← slice n
  advance n
  return bs

theorem bind_apply (r : Reading γ ε α) (f : α → Reading γ ε β) (b : Buffer γ) : (r >>= f) b = r b >>= fun p => f p.1 p.2 := rfl

theorem bind_ok {r : Reading γ ε α} {f : α → Reading γ ε β} {b b' : Buffer γ} {c : β} (h : (r >>= f) b = .ok (c, b')) :
    ∃ a mid, r b = .ok (a, mid) ∧ f a mid = .ok (c, b') := by
  rw [bind_apply] at h
  cases hr : r b with
  | error e =>
    rw [hr] at h
    cases h
  | ok p =>
    rw [hr] at h
    exact ⟨p.1, p.2, rfl, h⟩

theorem take_apply (n : Nat) (what : ε) (b : Buffer γ) :
    take n what b = if b.position + n > b.data.length then .error (.threw what)
      else .ok ((b.data.drop b.position).take n, { b with position := b.position + n }) := by
  rw [take, bind_apply]
  by_cases h : b.position + n > b.data.length
  · have hfail : ensureAvailable n what b = .error (.threw what) := if_pos h
    rw [hfail, if_pos h]
    rfl
  · have hthere : ensureAvailable n what b = .ok ((), b) := if_neg h
    have hslice : (slice n : Reading γ ε (List γ)) b = .ok ((b.data.drop b.position).take n, b) := if_pos (by omega)
    rw [hthere, if_neg h]
    show (slice n >>= fun bs => advance n >>= fun _ => pure bs) b = _
    rw [bind_apply, hslice]
    rfl

/-! ## Staying within the buffer -/

def Buffer.Within (b : Buffer γ) : Prop := b.position ≤ b.data.length

def Stays (r : Reading γ ε α) : Prop := ∀ b, b.Within →
  (∃ what, r b = .error (.threw what)) ∨ ∃ a b', r b = .ok (a, b') ∧ b'.data = b.data ∧ b'.Within

theorem stays_pure (a : α) : Stays (pure a : Reading γ ε α) := fun b hb => .inr ⟨a, b, rfl, rfl, hb⟩

theorem stays_throw (what : ε) : Stays (Reading.throw what : Reading γ ε α) := fun _ _ => .inl ⟨what, rfl⟩

theorem Stays.bind {r : Reading γ ε α} {f : α → Reading γ ε β} (hr : Stays r) (hf : ∀ a, Stays (f a)) : Stays (r >>= f) := by
  intro b hb
  rw [bind_apply]
  rcases hr b hb with ⟨what, hthrew⟩ | ⟨a, b', hok, hdata, hwithin⟩
  · refine .inl ⟨what, ?_⟩
    rw [hthrew]
    rfl
  · rw [hok]
    rcases hf a b' hwithin with hthrew | ⟨c, b'', hok', hdata', hwithin'⟩
    · exact .inl hthrew
    · exact .inr ⟨c, b'', hok', hdata'.trans hdata, hwithin'⟩

theorem Stays.map {r : Reading γ ε α} (hr : Stays r) (f : α → β) : Stays (f <$> r) := by
  rw [← bind_pure_comp]
  exact hr.bind fun a => stays_pure (f a)

theorem stays_take (n : Nat) (what : ε) : Stays (take n what : Reading γ ε (List γ)) := by
  intro b hb
  rw [take_apply]
  by_cases h : b.position + n > b.data.length
  · exact .inl ⟨what, if_pos h⟩
  · exact .inr ⟨_, _, if_neg h, rfl, Nat.le_of_not_lt h⟩

/-! ## What stands at the position -/

def Reads (r : Reading γ ε α) (s : List γ) (a : α) (t : List γ) : Prop :=
  ∃ used, s = used ++ t ∧ ∀ before, r ⟨before ++ s, before.length⟩ = .ok (a, ⟨before ++ s, (before ++ used).length⟩)

def Rejects (r : Reading γ ε α) (s : List γ) : Prop :=
  ∃ what, ∀ before, r ⟨before ++ s, before.length⟩ = .error (.threw what)

section
variable {r : Reading γ ε α} {f : α → Reading γ ε β} {s t u : List γ} {a : α} {c : β}

theorem reads_pure (a : α) (s : List γ) : Reads (pure a : Reading γ ε α) s a s :=
  ⟨[], rfl, fun before => by rw [List.append_nil]; rfl⟩

theorem rejects_throw (what : ε) (s : List γ) : Rejects (Reading.throw what : Reading γ ε α) s := ⟨what, fun _ => rfl⟩

theorem Reads.bind (hr : Reads r s a t) (hf : Reads (f a) t c u) : Reads (r >>= f) s c u := by
  obtain ⟨used, rfl, hr⟩ := hr
  obtain ⟨used', rfl, hf⟩ := hf
  refine ⟨used ++ used', by rw [List.append_assoc], fun before => ?_⟩
  have hnext := hf (before ++ used)
  rw [List.append_assoc, List.append_assoc before used used'] at hnext
  rw [bind_apply, hr]
  exact hnext

theorem Reads.map (hr : Reads r s a t) (f : α → β) : Reads (f <$> r) s (f a) t := by
  rw [← bind_pure_comp]
  exact hr.bind (reads_pure (f a) t)

theorem Rejects.bind (hr : Rejects r s) : Rejects (r >>= f) s := by
  obtain ⟨what, hr⟩ := hr
  refine ⟨what, fun before => ?_⟩
  rw [bind_apply, hr]
  rfl

theorem Reads.rejects (hr : Reads r s a t) (hf : Rejects (f a) t) : Rejects (r >>= f) s := by
  obtain ⟨used, rfl, hr⟩ := hr
  obtain ⟨what, hf⟩ := hf
  refine ⟨what, fun before => ?_⟩
  have hnext := hf (before ++ used)
  rw [List.append_assoc] at hnext
  rw [bind_apply, hr]
  exact hnext

theorem reads_advance (used t : List γ) : Reads (advance used.length : Reading γ ε Unit) (used ++ t) () t :=
  ⟨used, rfl, fun before => by rw [List.length_append]; rfl⟩

theorem Reads.length_le (hr : Reads r s a t) : t.length ≤ s.length := by
  obtain ⟨used, rfl, -⟩ := hr
  rw [List.length_append]
  omega

end

/-! ## A reader that refuses, or takes a front that is in a set -/

def Takes (r : Reading γ ε α) (s : List γ) (P : List γ → Prop) : Prop :=
  Rejects r s ∨ ∃ used t a, s = used ++ t ∧ P used ∧ Reads r s a t

section
variable {r : Reading γ ε α} {f : α → Reading γ ε β} {s t used : List γ} {a : α} {P Q : List γ → Prop}

theorem takes_pure (a : α) (s : List γ) (h : P []) : Takes (pure a : Reading γ ε α) s P := .inr ⟨[], s, a, rfl, h, reads_pure a s⟩

theorem Rejects.takes (h : Rejects r s) : Takes r s P := .inl h

theorem Takes.mono (h : Takes r s P) (hPQ : ∀ u, P u → Q u) : Takes r s Q := by
  obtain hrejects | ⟨used, t, a, rfl, hp, hreads⟩ := h
  · exact .inl hrejects
  · exact .inr ⟨used, t, a, rfl, hPQ used hp, hreads⟩

theorem Takes.bind (hr : Takes r s P) (hf : ∀ used a t, s = used ++ t → P used → Takes (f a) t fun u => Q (used ++ u)) :
    Takes (r >>= f) s Q := by
  obtain hrejects | ⟨used, t, a, rfl, hp, hreads⟩ := hr
  · exact .inl hrejects.bind
  obtain hrejects | ⟨used', t, c, rfl, hq, hreads'⟩ := hf used a t rfl hp
  · exact .inl (hreads.rejects hrejects)
  · exact .inr ⟨used ++ used', t, c, (List.append_assoc _ _ _).symm, hq, hreads.bind hreads'⟩

theorem Reads.takes (hr : Reads r (used ++ t) a t) (hf : Takes (f a) t fun u => Q (used ++ u)) : Takes (r >>= f) (used ++ t) Q := by
  obtain hrejects | ⟨used', t, c, rfl, hq, hreads⟩ := hf
  · exact .inl (hr.rejects hrejects)
  · exact .inr ⟨used ++ used', t, c, (List.append_assoc _ _ _).symm, hq, hr.bind hreads⟩

/-- A reader that leaves the position where it is. -/
theorem Reads.peeks (hr : Reads r s a s) (hf : Takes (f a) s Q) : Takes (r >>= f) s Q := @Reads.takes _ _ _ _ r f s [] a Q hr hf

end

/-! ## What a reader returns -/

def Gives (r : Reading γ ε α) (P : α → Prop) : Prop := ∀ b a b', r b = .ok (a, b') → P a

section
variable {r : Reading γ ε α} {P : α → Prop} {Q : β → Prop}

theorem gives_pure {a : α} (h : P a) : Gives (pure a : Reading γ ε α) P := by
  rintro b a b' ⟨⟩
  exact h

theorem gives_throw (what : ε) : Gives (Reading.throw what : Reading γ ε α) P := by
  rintro b a b' ⟨⟩

theorem gives_unfinished : Gives (Reading.unfinished : Reading γ ε α) P := by
  rintro b a b' ⟨⟩

theorem Gives.bind {f : α → Reading γ ε β} (hr : Gives r P) (hf : ∀ a, P a → Gives (f a) Q) : Gives (r >>= f) Q := by
  intro b c b' h
  obtain ⟨a, mid, hfirst, hrest⟩ := bind_ok h
  exact hf a (hr b a mid hfirst) mid c b' hrest

/-- Whatever the first part returns. -/
theorem gives_bind {f : α → Reading γ ε β} (hf : ∀ a, Gives (f a) Q) : Gives (r >>= f) Q :=
  Gives.bind (P := fun _ => True) (fun _ _ _ _ => trivial) fun a _ => hf a

theorem gives_ite {c : Prop} [Decidable c] {r' : Reading γ ε α} (h : Gives r P) (h' : Gives r' P) : Gives (if c then r else r') P := by
  split
  · exact h
  · exact h'

theorem gives_map {f : α → β} (h : ∀ a, Q (f a)) : Gives (f <$> r) Q := by
  rw [← bind_pure_comp]
  exact gives_bind fun a => gives_pure (h a)

end

/-! ## What has been written is read, whatever follows -/

def Decodes (r : Reading γ ε α) (bs : List γ) (a : α) : Prop := ∀ rest, Reads r (bs ++ rest) a rest

section
variable {r : Reading γ ε α} {bs cs : List γ} {a : α}

theorem decodes_pure (a : α) : Decodes (pure a : Reading γ ε α) [] a := fun rest => reads_pure a rest

theorem Decodes.bind {f : α → Reading γ ε β} {c : β} (hr : Decodes r bs a) (hf : Decodes (f a) cs c) :
    Decodes (r >>= f) (bs ++ cs) c := by
  intro rest
  rw [List.append_assoc]
  exact (hr (cs ++ rest)).bind (hf rest)

theorem Decodes.map {f : α → β} (hr : Decodes r bs a) : Decodes (f <$> r) bs (f a) := fun rest => (hr rest).map f

theorem Decodes.run (hr : Decodes r bs a) (before rest : List γ) :
    r ⟨before ++ (bs ++ rest), before.length⟩ = .ok (a, ⟨before ++ (bs ++ rest), (before ++ bs).length⟩) := by
  obtain ⟨used, hused, hr⟩ := hr rest
  rw [hr, List.append_cancel_right hused]

/-- What has been read where `bs` stands, and where the reader then is. -/
theorem Decodes.ok (hr : Decodes r bs a) (before : List γ) {rest : List γ} {b : Buffer γ} {c : α}
    (hok : r ⟨before ++ (bs ++ rest), before.length⟩ = .ok (c, b)) :
    c = a ∧ b = ⟨(before ++ bs) ++ rest, (before ++ bs).length⟩ := by
  rw [hr.run before rest] at hok
  cases hok
  rw [List.append_assoc]
  exact ⟨rfl, rfl⟩

theorem decodes_take (bs : List γ) (what : ε) : Decodes (take bs.length what) bs bs := by
  refine fun rest => ⟨bs, rfl, fun before => ?_⟩
  rw [take_apply, if_neg (by simp), List.drop_left, List.take_left, List.length_append]

end

end Positioned
