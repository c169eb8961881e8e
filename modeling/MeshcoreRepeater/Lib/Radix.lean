import MeshcoreRepeater.Lib.Numeral
import Mathlib.Algebra.Order.Floor.Semifield
import Mathlib.Tactic.Linarith
import Mathlib.Tactic.Positivity
import Mathlib.Tactic.Ring

/-! # Digits taken greedily

The digits of a non-negative number of a field, from the highest place down: what a
place holds is taken off before the next one is looked at. Below `b ^ n` the `n` digits
are digits of radix `b` (`leadingDigits_lt`), and they spell the whole part of the
number (`ofDigits_leadingDigits`).
-/

namespace ByteLib

section Greedy

variable {K : Type*} [Field K] [LinearOrder K] [IsStrictOrderedRing K] [FloorSemiring K]

/-- The `n` digits of `x` in radix `b`, the highest first. -/
def leadingDigits (b : Nat) : Nat → K → List Nat
  | 0, _ => []
  | n + 1, x => ⌊x / (b : K) ^ n⌋₊ :: leadingDigits b n (x - ⌊x / (b : K) ^ n⌋₊ * (b : K) ^ n)

variable {b n : Nat} {x : K}

omit [IsStrictOrderedRing K] in
@[simp] theorem length_leadingDigits (b n : Nat) (x : K) : (leadingDigits b n x).length = n := by
  induction n generalizing x with
  | zero => rfl
  | succ n ih => rw [leadingDigits, List.length_cons, ih]

/-- What one place holds leaves less than one of it. -/
theorem rest_bounds (hb : 0 < b) (hx : 0 ≤ x) :
    0 ≤ x - ⌊x / (b : K) ^ n⌋₊ * (b : K) ^ n ∧ x - ⌊x / (b : K) ^ n⌋₊ * (b : K) ^ n < (b : K) ^ n := by
  have hpow : (0 : K) < (b : K) ^ n := pow_pos (Nat.cast_pos.mpr hb) n
  have hle := Nat.floor_le (div_nonneg hx hpow.le)
  have hlt := Nat.lt_floor_add_one (x / (b : K) ^ n)
  rw [le_div_iff₀ hpow] at hle
  rw [div_lt_iff₀ hpow] at hlt
  constructor
  · linarith
  · linarith

theorem leadingDigits_lt (hb : 0 < b) (hx : 0 ≤ x) (hlt : x < (b : K) ^ n) :
    ∀ d ∈ leadingDigits b n x, d < b := by
  induction n generalizing x with
  | zero =>
    intro d hd
    cases hd
  | succ n ih =>
    intro d hd
    rcases List.mem_cons.mp hd with rfl | hd
    · have hpow : (0 : K) < (b : K) ^ n := pow_pos (Nat.cast_pos.mpr hb) n
      apply (Nat.floor_lt (div_nonneg hx hpow.le)).mpr
      rwa [div_lt_iff₀ hpow, ← pow_succ']
    · rcases rest_bounds (n := n) hb hx with ⟨hnonneg, hsmall⟩
      exact ih hnonneg hsmall d hd

/-- The digits read on from `v`. -/
theorem foldl_leadingDigits (hb : 0 < b) (hx : 0 ≤ x) (hlt : x < (b : K) ^ n) (v : Nat) :
    (leadingDigits b n x).foldl (fun v d => b * v + d) v = v * b ^ n + ⌊x⌋₊ := by
  induction n generalizing x v with
  | zero =>
    rw [pow_zero] at hlt
    rw [leadingDigits, List.foldl_nil, Nat.floor_eq_zero.mpr hlt, pow_zero, Nat.mul_one, Nat.add_zero]
  | succ n ih =>
    rcases rest_bounds (n := n) hb hx with ⟨hnonneg, hsmall⟩
    rw [leadingDigits, List.foldl_cons, ih hnonneg hsmall]
    generalize ⌊x / (b : K) ^ n⌋₊ = d at hnonneg
    -- taking off whole places takes as much off the whole part
    have hwhole : d * b ^ n ≤ ⌊x⌋₊ := by
      apply Nat.le_floor
      push_cast
      linarith
    have hrest : ⌊x - d * (b : K) ^ n⌋₊ = ⌊x⌋₊ - d * b ^ n := by
      rw [← Nat.floor_sub_natCast]
      push_cast
      rfl
    rw [hrest, pow_succ', Nat.add_mul]
    have hassoc : b * v * b ^ n = v * (b * b ^ n) := by ring
    omega

theorem ofDigits_leadingDigits (hb : 0 < b) (hx : 0 ≤ x) (hlt : x < (b : K) ^ n) :
    ofDigits b (leadingDigits b n x) = ⌊x⌋₊ := by
  rw [ofDigits, foldl_leadingDigits hb hx hlt, Nat.zero_mul, Nat.zero_add]

end Greedy

end ByteLib
