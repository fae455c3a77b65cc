import Mathlib.Algebra.Ring.Parity
import Mathlib.Data.UInt
import Mathlib.Dynamics.PeriodicPts.Lemmas
import Mathlib.Tactic.LinearCombination
import Mathlib.Tactic.Ring
import Consequence.Random.Pcg

/-!
# The stream of a generator

The numbers that a generator draws are folded out of a state that a congruential step moves on.
Neither part of this could be changed freely. With an even increment, or another multiplier modulo
four, the states would fall apart into several cycles; and folding 64 bits onto 32 could make one
cycle of states look like a shorter one from outside.

The states are on one cycle: as many steps as a power of two add this power to the state, up to
multiples of the next one (`advance_iterate_two_pow`). So half of all steps change the top bit of a
state and nothing else, and all of them change nothing, which leaves no period but the number of
states. The numbers drawn have the same period, because if they had a shorter one they would have
half the number of states, and the number drawn at the state zero differs from that drawn half way
round, where just the top bit is set.

Two generators that differ in their seed are on the same cycle at different places. If they drew
the same numbers, the distance between them would be a period.
-/

namespace Consequence.Pcg

open Function

/-- The generator after so many draws of 32 bits. -/
def after (g : Pcg) (count : Nat) : Pcg := (fun g => g.next32.2)^[count] g

/-- The numbers that the generator draws, one after the other. -/
def stream (g : Pcg) (i : Nat) : UInt32 := (g.after i).next32.1

/-! ## The cycle of the states -/

/-- A step, as far as the state goes. -/
def advance (increment state : UInt64) : UInt64 := state * multiplier + increment

open scoped UInt64.CommRing

theorem two_pow_64 : (2 : UInt64) ^ 64 = 0 := by decide +kernel

section

variable {increment : UInt64} (hodd : Odd increment)
include hodd

/-- So many steps as a power of two are again an affine map: its factor leaves all but the top bits
alone, and its summand is an odd multiple of the power. -/
theorem advance_iterate_two_pow (k : Nat) : ∃ t s : UInt64, ∀ state,
    (advance increment)^[2 ^ k] state =
      state * (1 + 2 ^ (k + 2) * t) + 2 ^ k * (2 * s + 1) := by
  induction k with
  | zero =>
      obtain ⟨s, hs⟩ := hodd
      have hmultiplier : multiplier = 1 + 2 ^ 2 * (multiplier / 4) := by decide +kernel
      refine ⟨multiplier / 4, s, fun state => ?_⟩
      show state * multiplier + increment = _
      rw [hs, Nat.zero_add, ← hmultiplier, pow_zero, one_mul]
  | succ k ih =>
      obtain ⟨t, s, hk⟩ := ih
      refine ⟨t + 2 ^ (k + 1) * t ^ 2, s + 2 ^ k * t * (2 * s + 1), fun state => ?_⟩
      rw [Nat.pow_succ, Nat.mul_two, iterate_add_apply, hk, hk]
      ring

theorem advance_iterate_all (state : UInt64) : (advance increment)^[2 ^ 64] state = state := by
  obtain ⟨t, s, h⟩ := advance_iterate_two_pow hodd 64
  rw [h]
  linear_combination (4 * state * t + 2 * s + 1) * two_pow_64

/-- Half way round, the top bit is turned. -/
theorem advance_iterate_half (state : UInt64) :
    (advance increment)^[2 ^ 63] state = state + 2 ^ 63 := by
  obtain ⟨t, s, h⟩ := advance_iterate_two_pow hodd 63
  rw [h]
  linear_combination (2 * state * t + s) * two_pow_64

theorem minimalPeriod_advance (state : UInt64) :
    minimalPeriod (advance increment) state = 2 ^ 64 := by
  refine minimalPeriod_eq_prime_pow (k := 63) (fun hhalf => ?_) (advance_iterate_all hodd state)
  have hadd : state + 2 ^ 63 = state := (advance_iterate_half hodd state).symm.trans hhalf
  exact absurd (left_eq_add.1 hadd.symm) (by decide +kernel)

/-- From any state every state is reached. -/
theorem exists_advance_eq (state target : UInt64) :
    ∃ count < 2 ^ 64, (advance increment)^[count] state = target := by
  let place (count : Fin UInt64.size) : Fin UInt64.size :=
    ((advance increment)^[count] state).toFin
  have hinjective : Injective place := by
    intro count count' h
    have hperiod := minimalPeriod_advance hodd state
    have hlt : count.val < minimalPeriod (advance increment) state := hperiod ▸ count.isLt
    have hlt' : count'.val < minimalPeriod (advance increment) state := hperiod ▸ count'.isLt
    exact Fin.ext (iterate_injOn_Iio_minimalPeriod hlt hlt' (UInt64.toFin_inj.1 h))
  obtain ⟨count, hcount⟩ := Finite.injective_iff_surjective.1 hinjective target.toFin
  exact ⟨count, count.isLt, UInt64.toFin_inj.1 hcount⟩

end

/-! ## Generators -/

theorem after_succ (g : Pcg) (count : Nat) : g.after (count + 1) = (g.after count).step :=
  iterate_succ_apply' _ count g

theorem after_add (g : Pcg) (count more : Nat) :
    g.after (count + more) = (g.after count).after more := by
  rw [after, Nat.add_comm, iterate_add_apply]
  rfl

theorem increment_after (g : Pcg) (count : Nat) : (g.after count).increment = g.increment := by
  induction count with
  | zero => rfl
  | succ count ih => rw [after_succ, step, ih]

theorem state_after (g : Pcg) (count : Nat) :
    (g.after count).state = (advance g.increment)^[count] g.state := by
  induction count with
  | zero => rfl
  | succ count ih => rw [after_succ, step, iterate_succ_apply', advance, ← ih, increment_after]

/-- A generator is its state and its increment, so a later one is known by its state. -/
theorem after_eq_iff {g g' : Pcg} (h : g.increment = g'.increment) {count : Nat} :
    g.after count = g' ↔ (g.after count).state = g'.state := by
  refine ⟨congrArg state, fun hstate => ?_⟩
  have hincrement := (increment_after g count).trans h
  cases hafter : g.after count
  rw [hafter] at hstate hincrement
  cases g'
  cases hstate
  cases hincrement
  rfl

/-- What is drawn later is drawn by the later generator. -/
theorem stream_after (g : Pcg) (count i : Nat) :
    (g.after count).stream i = g.stream (i + count) := by
  rw [stream, stream, Nat.add_comm, after_add]

/-- The numbers from the second one on. -/
def dropFirst (numbers : Nat → UInt32) : Nat → UInt32 := fun i => numbers (i + 1)

theorem dropFirst_iterate (numbers : Nat → UInt32) (count : Nat) :
    dropFirst^[count] numbers = fun i => numbers (i + count) := by
  induction count with
  | zero => rfl
  | succ count ih =>
      rw [iterate_succ_apply', ih]
      funext i
      show numbers (i + 1 + count) = numbers (i + (count + 1))
      rw [Nat.add_right_comm, Nat.add_assoc]

theorem isPeriodicPt_dropFirst_iff (numbers : Nat → UInt32) (period : Nat) :
    IsPeriodicPt dropFirst period numbers ↔ ∀ i, numbers (i + period) = numbers i := by
  rw [IsPeriodicPt, IsFixedPt, dropFirst_iterate, funext_iff]

/-- The two states that tell the halves of the cycle apart, by the numbers drawn there. -/
theorem output_zero_ne_output_top {g g' : Pcg} (h : g.state = 0) (h' : g'.state = 2 ^ 63) :
    g.output ≠ g'.output := by
  rw [output, output, h, h']
  decide +kernel

section

variable {g : Pcg} (hodd : Odd g.increment)
include hodd

theorem existsUnique_after_state (state : UInt64) :
    ∃! count, count < 2 ^ 64 ∧ (g.after count).state = state := by
  obtain ⟨count, hlt, hcount⟩ := exists_advance_eq hodd g.state state
  refine ⟨count, ⟨hlt, by rw [state_after, hcount]⟩, fun count' ⟨hlt', hcount'⟩ => ?_⟩
  rw [state_after] at hcount'
  have hperiod := minimalPeriod_advance hodd g.state
  exact (iterate_eq_iterate_iff_of_lt_minimalPeriod (hperiod.symm ▸ hlt')
    (hperiod.symm ▸ hlt)).1 (hcount'.trans hcount.symm)

theorem after_all : g.after (2 ^ 64) = g := by
  rw [after_eq_iff rfl, state_after, advance_iterate_all hodd]

/-- Folding the states onto numbers does not shorten their period. -/
theorem minimalPeriod_stream : minimalPeriod dropFirst g.stream = 2 ^ 64 := by
  refine minimalPeriod_eq_prime_pow (k := 63) ?_ ?_
  · rw [isPeriodicPt_dropFirst_iff]
    intro hhalf
    -- The state zero comes up at some place, and the top bit alone half way round from there.
    obtain ⟨count, ⟨-, hzero⟩, -⟩ := existsUnique_after_state hodd 0
    have htop : (g.after (count + 2 ^ 63)).state = 2 ^ 63 := by
      rw [state_after] at hzero ⊢
      rw [Nat.add_comm, iterate_add_apply, advance_iterate_half hodd, hzero, zero_add]
    exact output_zero_ne_output_top hzero htop (hhalf count).symm
  · rw [isPeriodicPt_dropFirst_iff]
    intro i
    rw [← stream_after, after_all hodd]

/-- Generators on the same cycle that draw the same numbers are the same. -/
theorem eq_of_stream_eq {g' : Pcg} (h : g.increment = g'.increment)
    (hstream : g.stream = g'.stream) : g = g' := by
  obtain ⟨count, ⟨hlt, hstate⟩, -⟩ := existsUnique_after_state hodd g'.state
  have hafter : g.after count = g' := (after_eq_iff h).2 hstate
  have hperiod : IsPeriodicPt dropFirst count g.stream := by
    rw [isPeriodicPt_dropFirst_iff]
    intro i
    rw [← stream_after, hafter, hstream]
  have hzero : count = 0 :=
    hperiod.eq_zero_of_lt_minimalPeriod ((minimalPeriod_stream hodd).symm ▸ hlt)
  rw [← hafter, hzero]
  rfl

end

theorem odd_seededIncrement : Odd seededIncrement :=
  ⟨seededIncrement / 2, by decide +kernel⟩

/-- Generators with different seeds draw different numbers at some place. From every seed the
states run through all 64 bit words on one cycle, each of them once before the first comes back,
and the numbers drawn have the same period and none that is shorter. -/
theorem stream_ofSeed_ne_iff (seed : UInt64) :
    (∀ seed' : UInt64, (∃ i, (ofSeed seed).stream i ≠ (ofSeed seed').stream i) ↔ seed ≠ seed') ∧
    (∀ state : UInt64, ∃! count, count < 2 ^ 64 ∧ ((ofSeed seed).after count).state = state) ∧
    (ofSeed seed).after (2 ^ 64) = ofSeed seed ∧
    ∀ period : Nat, (∀ i, (ofSeed seed).stream (i + period) = (ofSeed seed).stream i) ↔
      2 ^ 64 ∣ period := by
  have hodd : Odd (ofSeed seed).increment := odd_seededIncrement
  refine ⟨fun seed' => ?_, existsUnique_after_state hodd, after_all hodd, fun period => ?_⟩
  · rw [← Function.ne_iff]
    refine not_congr ⟨fun hstream => ?_, congrArg fun seed => (ofSeed seed).stream⟩
    have hsame : ofSeed seed = ofSeed seed' := eq_of_stream_eq hodd rfl hstream
    exact add_right_cancel (congrArg state hsame)
  · rw [← isPeriodicPt_dropFirst_iff, isPeriodicPt_iff_minimalPeriod_dvd,
      minimalPeriod_stream hodd]

end Consequence.Pcg
