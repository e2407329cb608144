import Mathlib.Data.Int.ModEq
import Mathlib.Tactic.Common
import Mathlib.Tactic.Ring
/-!
# The schedule of a tick (`tick_scheduler.cpp:42-64`, `origindb_server.cpp:195-219`)

`DispatchLoop` adds the period to `next_fire` until it is past `now`, and then dispatches one tick or counts one as skipped.
The period is what an integer division makes of `--tick-hz`: above 10^9 Hz it is zero, and the loop never ends
(`keeps_phase_iff`, `never_caught_up`).

A time point is a count of nanoseconds in 64 signed bits; `overflows` is an addition beyond the last of them.
-/
namespace OriginDB

namespace Wasm

namespace TickScheduler

/-- `steady_clock::time_point::max()`. -/
def maxTime : Int := 2 ^ 63 - 1

/-- The period for `--tick-hz` (origindb_server.cpp:201), in nanoseconds. -/
def tickPeriod (hz : UInt32) : Int :=
  let hz := if hz > 0 then hz else 60
  1000000000 / hz.toNat

/-- `Runtime` (tick_scheduler.h:59), what the schedule is about. -/
structure Runtime where
  period : Int
  nextFire : Int
  inFlight : Bool := false
deriving DecidableEq

inductive CatchUp where
  | caughtUp (nextFire : Int)
  | overflows
  | goesOn
deriving DecidableEq

/-- `do next_fire += period; while (next_fire <= now)` (tick_scheduler.cpp:51), with fuel. -/
def catchUp (period now : Int) : Nat → Int → CatchUp
  | 0, _ => .goesOn
  | fuel + 1, nextFire =>
    if maxTime < nextFire + period then .overflows
    else if nextFire + period ≤ now then catchUp period now fuel (nextFire + period)
    else .caughtUp (nextFire + period)

/-- What a pass does to an entry. -/
inductive Visit where
  | waits
  | dispatched (rt : Runtime)
  | skipped (rt : Runtime)
  | overflows
  | goesOn
deriving DecidableEq

/-- The body of the loop over the entries (tick_scheduler.cpp:50-59). -/
def visit (fuel : Nat) (now : Int) (rt : Runtime) : Visit :=
  if rt.nextFire ≤ now then
    match catchUp rt.period now fuel rt.nextFire with
    | .caughtUp nextFire =>
      if rt.inFlight then .skipped { rt with nextFire := nextFire }
      else .dispatched { rt with nextFire := nextFire, inFlight := true }
    | .overflows => .overflows
    | .goesOn => .goesOn
  else .waits

/-- The loop ends; the entry is next due after `now`, within a period and in phase; and one tick is dispatched or counted. -/
def KeepsPhase (now : Int) (rt : Runtime) : Prop :=
  ∃ nextFire, now < nextFire ∧ nextFire ≤ now + rt.period ∧ nextFire ≡ rt.nextFire [ZMOD rt.period] ∧
    ∃ enough, ∀ fuel, enough ≤ fuel → visit fuel now rt =
      if rt.inFlight then .skipped { rt with nextFire := nextFire }
      else .dispatched { rt with nextFire := nextFire, inFlight := true }

/-- The first time after `now` in the phase of the entry. -/
def firstAfter (now : Int) (rt : Runtime) : Int := rt.nextFire + ((now - rt.nextFire) / rt.period + 1) * rt.period

section
variable {period now nextFire : Int} {fuel : Nat} {rt : Runtime}

/-- After `k` periods that are not past `now` and one that is. -/
theorem catchUp_eq (hnow : now ≤ maxTime) (hp : 0 ≤ period) (k : Nat) (hle : nextFire + k * period ≤ now)
    (hlt : now < nextFire + (k + 1) * period) (hfuel : k + 1 ≤ fuel) : catchUp period now fuel nextFire =
      if maxTime < nextFire + (k + 1) * period then .overflows else .caughtUp (nextFire + (k + 1) * period) := by
  induction k generalizing nextFire fuel with
  | zero =>
    cases fuel with
    | zero => omega
    | succ fuel =>
      have hone : nextFire + (((0 : Nat) : Int) + 1) * period = nextFire + period := by simp
      rw [hone] at hlt ⊢
      rw [catchUp, if_neg (Int.not_le.2 hlt)]
  | succ k ih =>
    cases fuel with
    | zero => omega
    | succ fuel =>
      have hmore : nextFire + ((k + 1 : Nat) : Int) * period = nextFire + period + k * period := by
        push_cast
        ring
      have hlast : nextFire + (((k + 1 : Nat) : Int) + 1) * period = nextFire + period + (k + 1) * period := by
        push_cast
        ring
      have hk : 0 ≤ (k : Int) * period := Int.mul_nonneg (Int.natCast_nonneg k) hp
      rw [hmore] at hle
      rw [hlast] at hlt ⊢
      rw [catchUp, if_neg (by omega), if_pos (by omega), ih hle hlt (by omega)]

/-- **A period of zero is never enough.** -/
theorem never_caught_up (hnow : now ≤ maxTime) (hle : nextFire ≤ now) : catchUp 0 now fuel nextFire = .goesOn := by
  induction fuel with
  | zero => rfl
  | succ fuel ih =>
    rw [catchUp, Int.add_zero, if_neg (by omega), if_pos hle, ih]

/-- How often the period fits between the two. -/
theorem exists_periods (hp : 0 < period) (hle : nextFire ≤ now) : ∃ k : Nat, (k : Int) = (now - nextFire) / period ∧
    nextFire + k * period ≤ now ∧ now < nextFire + (k + 1) * period := by
  have hk : 0 ≤ (now - nextFire) / period := Int.ediv_nonneg (by omega) (Int.le_of_lt hp)
  obtain ⟨k, hk⟩ := Int.eq_ofNat_of_zero_le hk
  have hdiv := Int.mul_ediv_add_emod (now - nextFire) period
  have hnonneg := Int.emod_nonneg (now - nextFire) (Int.ne_of_gt hp)
  have hlt := Int.emod_lt_of_pos (now - nextFire) hp
  rw [hk, Int.mul_comm] at hdiv
  refine ⟨k, hk.symm, by omega, ?_⟩
  rw [Int.add_mul, Int.one_mul]
  omega

/-- What a pass makes of an entry that is due. -/
theorem visit_eq (hdue : rt.nextFire ≤ now) : visit fuel now rt =
    match catchUp rt.period now fuel rt.nextFire with
    | .caughtUp nextFire =>
      if rt.inFlight then .skipped { rt with nextFire := nextFire }
      else .dispatched { rt with nextFire := nextFire, inFlight := true }
    | .overflows => .overflows
    | .goesOn => .goesOn := by
  rw [visit, if_pos hdue]

theorem keepsPhase_of_pos (hnow : now ≤ maxTime) (hp : 0 < rt.period) (hdue : rt.nextFire ≤ now) :
    KeepsPhase now rt ↔ firstAfter now rt ≤ maxTime := by
  obtain ⟨k, hk, hle, hlt⟩ := exists_periods hp hdue
  have hfirst : firstAfter now rt = rt.nextFire + (k + 1) * rt.period := by rw [firstAfter, hk]
  rw [hfirst]
  constructor
  · rintro ⟨next, -, -, -, enough, hvisit⟩
    by_contra hover
    have hcatch := catchUp_eq hnow (Int.le_of_lt hp) k hle hlt (Nat.le_add_left (k + 1) enough)
    rw [if_pos (by omega)] at hcatch
    have hboth := hvisit (enough + (k + 1)) (Nat.le_add_right _ _)
    rw [visit_eq hdue, hcatch] at hboth
    cases hflight : rt.inFlight <;> simp [hflight] at hboth
  · intro hfits
    refine ⟨_, hlt, ?_, ?_, k + 1, fun fuel hfuel => ?_⟩
    · rw [Int.add_mul, Int.one_mul]
      omega
    · exact Int.modEq_iff_dvd.2 ⟨-(k + 1), by ring⟩
    · rw [visit_eq hdue, catchUp_eq hnow (Int.le_of_lt hp) k hle hlt hfuel, if_neg (by omega)]

end

section
variable {hz : UInt32} {now : Int} {rt : Runtime}

theorem tickPeriod_eq (hz0 : 0 < hz) : tickPeriod hz = 1000000000 / hz.toNat := by
  rw [tickPeriod]
  simp only [if_pos hz0]

theorem tickPeriod_pos_iff (hz0 : 0 < hz) : 0 < tickPeriod hz ↔ hz.toNat ≤ 1000000000 := by
  have hpos : 0 < hz.toNat := UInt32.lt_iff_toNat_lt.1 hz0
  rw [tickPeriod_eq hz0]
  norm_cast
  rw [Nat.div_pos_iff]
  omega

/-- **A tick keeps its phase exactly when** the rate is at most 10^9 Hz and the next time in phase is a time point. -/
theorem keeps_phase_iff (hz : UInt32) (hz0 : 0 < hz) (rt : Runtime) (hperiod : rt.period = tickPeriod hz) (now : Int)
    (hdue : rt.nextFire ≤ now) (hnow : now ≤ maxTime) :
    KeepsPhase now rt ↔ hz.toNat ≤ 1000000000 ∧ firstAfter now rt ≤ maxTime := by
  rw [← tickPeriod_pos_iff hz0, ← hperiod]
  by_cases hp : 0 < rt.period
  · rw [keepsPhase_of_pos hnow hp hdue, and_iff_right hp]
  · have hzero : rt.period = 0 := by
      have hnonneg : 0 ≤ rt.period := by
        rw [hperiod, tickPeriod_eq hz0]
        exact Int.ediv_nonneg (by omega) (Int.natCast_nonneg _)
      omega
    refine iff_of_false ?_ (fun h => hp h.1)
    rintro ⟨next, -, -, -, enough, hvisit⟩
    have hends := hvisit enough (Nat.le_refl _)
    rw [visit_eq hdue, hzero, never_caught_up hnow hdue] at hends
    cases hflight : rt.inFlight <;> simp [hflight] at hends

end

/-- A tick at 60 Hz that is three periods late. -/
theorem keeps_phase_late : KeepsPhase 60000000 { period := 16666666, nextFire := 5 } :=
  (keeps_phase_iff 60 (by decide) { period := 16666666, nextFire := 5 } (by decide) 60000000 (by decide) (by decide)).2
    ⟨by decide, by decide⟩

/-- At 2 GHz no pass comes to an end. -/
theorem hangs_at_two_gigahertz : tickPeriod 2000000000 = 0 ∧
    (∀ fuel, visit fuel 7 { period := tickPeriod 2000000000, nextFire := 7 } = .goesOn) ∧
    ¬ KeepsPhase 7 { period := tickPeriod 2000000000, nextFire := 7 } := by
  have hzero : tickPeriod 2000000000 = 0 := by decide
  have hgoesOn : ∀ fuel, visit fuel 7 { period := tickPeriod 2000000000, nextFire := 7 } = .goesOn := by
    intro fuel
    rw [visit_eq (by decide), hzero, never_caught_up (by decide) (by decide)]
  refine ⟨hzero, hgoesOn, ?_⟩
  rintro ⟨next, -, -, -, enough, hvisit⟩
  have hends := hvisit enough (Nat.le_refl _)
  rw [hgoesOn] at hends
  simp at hends

end TickScheduler

end Wasm

end OriginDB
