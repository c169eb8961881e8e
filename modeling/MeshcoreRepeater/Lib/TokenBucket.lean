import Mathlib.Algebra.Order.Field.Basic
import Mathlib.Data.List.Basic
import Mathlib.Tactic.Linarith
import Mathlib.Tactic.Ring

/-! # Token buckets

A bucket fills at `rate` per unit of time up to `cap`, starts full, and every payment takes
one token. `Spent` derives the times of the payments together with the bucket they leave. In
any window of length `span` there are at most `cap + rate * span` of them (`Spent.window`): what
was paid since its beginning and what is left never exceed what there was and what came in.
-/

namespace TokenBucket

variable {K : Type} [Field K] [LinearOrder K] {cap rate : K}

/-- What the bucket holds at the time `now`: an unused one is full. -/
def filled (cap rate : K) (now : ℕ) : Option (ℕ × K) → K
  | none => cap
  | some (last, level) => min cap (level + rate * (now - last : ℕ))

/-- The bucket was not used after `now`. -/
def NotAfter (now : ℕ) (b : Option (ℕ × K)) : Prop := ∀ last level, b = some (last, level) → last ≤ now

/-- The payments so far, and the bucket: when it was used last, and what it held then. -/
inductive Spent (cap rate : K) : List ℕ → Option (ℕ × K) → Prop
  | unused : Spent cap rate [] none
  /-- it is filled up, and nothing is paid -/
  | refill {ts : List ℕ} {b : Option (ℕ × K)} {now : ℕ} (h : Spent cap rate ts b) (hnow : NotAfter now b) :
      Spent cap rate ts (some (now, filled cap rate now b))
  /-- one token is paid -/
  | pay {ts : List ℕ} {b : Option (ℕ × K)} {now : ℕ} (h : Spent cap rate ts b) (hnow : NotAfter now b)
      (htoken : 1 ≤ filled cap rate now b) :
      Spent cap rate (ts ++ [now]) (some (now, filled cap rate now b - 1))

theorem filled_le (now : ℕ) (b : Option (ℕ × K)) : filled cap rate now b ≤ cap := by
  cases b with
  | none => exact le_refl _
  | some b => exact min_le_left _ _

namespace Spent

variable {ts : List ℕ} {b : Option (ℕ × K)} {last start : ℕ} {level : K}

/-- No payment is later than the last use. -/
theorem times_le (h : Spent cap rate ts b) : ∀ t ∈ ts, ∃ last level, b = some (last, level) ∧ t ≤ last := by
  induction h with
  | unused => nofun
  | @refill ts b now h hnow ih =>
    intro t ht
    obtain ⟨last, level, hb, hle⟩ := ih t ht
    exact ⟨now, _, rfl, hle.trans (hnow last level hb)⟩
  | @pay ts b now h hnow htoken ih =>
    intro t ht
    rcases List.mem_append.mp ht with hold | hnew
    · obtain ⟨last, level, hb, hle⟩ := ih t hold
      exact ⟨now, _, rfl, hle.trans (hnow last level hb)⟩
    · exact ⟨now, _, rfl, (List.mem_singleton.mp hnew).le⟩

/-- The number of payments from `start` on. -/
def since (start : ℕ) (ts : List ℕ) : ℕ := (ts.filter fun t => decide (start ≤ t)).length

theorem since_eq_zero (h : Spent cap rate ts b) (hb : ∀ last level, b = some (last, level) → last < start) :
    since start ts = 0 := by
  rw [since, List.length_eq_zero_iff, List.filter_eq_nil_iff]
  intro t ht hle
  obtain ⟨last, level, hsome, hlast⟩ := h.times_le t ht
  have hlt := hb last level hsome
  have hle := of_decide_eq_true hle
  omega

variable [IsStrictOrderedRing K]

/-- The level stays between 0 and the capacity. -/
theorem bounds (hcap : 0 ≤ cap) (hrate : 0 ≤ rate) (h : Spent cap rate ts b) (last : ℕ) (level : K)
    (hb : b = some (last, level)) : 0 ≤ level ∧ level ≤ cap := by
  induction h generalizing last level with
  | unused => cases hb
  | @refill ts b now h hnow ih =>
    cases hb
    refine ⟨?_, filled_le now b⟩
    cases b with
    | none => exact hcap
    | some b =>
      have hgain : 0 ≤ rate * ((now - b.1 : ℕ) : K) := mul_nonneg hrate (Nat.cast_nonneg _)
      exact le_min hcap (add_nonneg (ih b.1 b.2 rfl).1 hgain)
  | @pay ts b now h hnow htoken ih =>
    cases hb
    have hle : filled cap rate now b ≤ cap := filled_le now b
    constructor <;> linarith

/-- What holds at the last use holds of the bucket as it is filled later. -/
theorem potential_filled (hrate : 0 ≤ rate) (h : Spent cap rate ts b) {now : ℕ} (hnow : NotAfter now b)
    (hstart : start ≤ now)
    (hpot : ∀ last level, b = some (last, level) → start ≤ last →
      (since start ts : K) + level ≤ cap + rate * (last - start : ℕ)) :
    (since start ts : K) + filled cap rate now b ≤ cap + rate * (now - start : ℕ) := by
  by_cases hbefore : ∀ last level, b = some (last, level) → last < start
  · -- nothing was paid since `start`: the bucket holds its capacity at most
    have hgain : 0 ≤ rate * ((now - start : ℕ) : K) := mul_nonneg hrate (Nat.cast_nonneg _)
    have hle : filled cap rate now b ≤ cap := filled_le now b
    rw [h.since_eq_zero hbefore, Nat.cast_zero]
    linarith
  · simp only [not_forall, not_lt] at hbefore
    obtain ⟨last, level, rfl, hlast⟩ := hbefore
    have hle : filled cap rate now (some (last, level)) ≤ level + rate * ((now - last : ℕ) : K) := min_le_right _ _
    have hsum : ((now - start : ℕ) : K) = ((last - start : ℕ) : K) + ((now - last : ℕ) : K) := by
      have hnat : now - start = (last - start) + (now - last) := by
        have := hnow last level rfl
        omega
      rw [hnat, Nat.cast_add]
    have hold := hpot last level rfl hlast
    rw [hsum, mul_add]
    linarith

/-- What was paid since `start` and what is left come from what there was at `start` and
what came in. -/
theorem potential (hrate : 0 ≤ rate) (h : Spent cap rate ts b) (start last : ℕ) (level : K)
    (hb : b = some (last, level)) (hstart : start ≤ last) :
    (since start ts : K) + level ≤ cap + rate * (last - start : ℕ) := by
  induction h generalizing last level with
  | unused => cases hb
  | @refill ts b now h hnow ih =>
    cases hb
    exact h.potential_filled hrate hnow hstart ih
  | @pay ts b now h hnow htoken ih =>
    cases hb
    have hfilled := h.potential_filled hrate hnow hstart ih
    have hone : since start (ts ++ [now]) = since start ts + 1 := by
      simp [since, List.filter_append, hstart]
    rw [hone, Nat.cast_add, Nat.cast_one]
    linarith

/-- The bound: any window holds the capacity and what comes in during it, at most. -/
theorem window (hcap : 0 ≤ cap) (hrate : 0 ≤ rate) (h : Spent cap rate ts b) (start span : ℕ) :
    ((ts.filter fun t => decide (start ≤ t ∧ t ≤ start + span)).length : K) ≤ cap + rate * span := by
  have hspan : 0 ≤ rate * (span : K) := mul_nonneg hrate (Nat.cast_nonneg _)
  induction h with
  | unused => simpa using add_nonneg hcap hspan
  | refill h hnow ih => exact ih
  | @pay ts b now h hnow htoken ih =>
    rw [List.filter_append]
    by_cases hin : start ≤ now ∧ now ≤ start + span
    · -- the window is still open: all the payments since its beginning are in it
      have hpaid := (h.pay hnow htoken).potential hrate start now _ rfl hin.1
      have hleft := ((h.pay hnow htoken).bounds hcap hrate now _ rfl).1
      have hcount : (ts.filter fun t => decide (start ≤ t ∧ t ≤ start + span)).length ≤ since start ts := by
        refine (List.monotone_filter_right ts fun t ht => ?_).length_le
        exact decide_eq_true (of_decide_eq_true ht).1
      have hone : since start (ts ++ [now]) = since start ts + 1 := by
        simp [since, List.filter_append, hin.1]
      rw [hone, Nat.cast_add, Nat.cast_one] at hpaid
      have hgain : rate * ((now - start : ℕ) : K) ≤ rate * (span : K) :=
        mul_le_mul_of_nonneg_left (Nat.cast_le.mpr (by omega)) hrate
      have hcount' : ((ts.filter fun t => decide (start ≤ t ∧ t ≤ start + span)).length : K) ≤ since start ts :=
        Nat.cast_le.mpr hcount
      simp only [List.filter_cons, decide_eq_true hin, if_true, List.filter_nil, List.length_append,
        List.length_singleton, Nat.cast_add, Nat.cast_one]
      linarith
    · simpa [hin] using ih

end Spent

end TokenBucket
