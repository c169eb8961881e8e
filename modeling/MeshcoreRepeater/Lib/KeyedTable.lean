import Mathlib.Data.List.FinRange
import Mathlib.Tactic.Common
import Mathlib.Logic.Function.Basic

/-! # A table with one row for each key

A table of `n` rows, each in use or free. A key that has a row is written there; a new key
takes a free row, and when none is left the row with the least age. Wherever it goes, no key
gets a second row (`Apart.update`).
-/

namespace KeyedTable

variable {n : Nat} {ε κ α : Type} (used : ε → Bool) (key : ε → κ) (age : ε → α)

/-- Row `i` is in use, and the row of `k`. -/
def Holds (T : Fin n → ε) (k : κ) (i : Fin n) : Prop := used (T i) = true ∧ key (T i) = k

/-- No key has two rows. -/
def Apart (T : Fin n → ε) : Prop :=
  ∀ i j, used (T i) = true → used (T j) = true → key (T i) = key (T j) → i = j

/-- The row a key is written to. -/
inductive Place [LE α] (T : Fin n → ε) (k : κ) (i : Fin n) : Prop where
  | own : Holds used key T k i → Place T k i
  | free : (∀ j, ¬ Holds used key T k j) → used (T i) = false → Place T k i
  | oldest : (∀ j, ¬ Holds used key T k j) → (∀ j, used (T j) = true) →
      (∀ j, age (T i) ≤ age (T j)) → Place T k i

variable {used key age} {T : Fin n → ε} {k : κ} {i : Fin n} {e : ε}

/-- Where the key has a row, it is written there. -/
theorem Place.holds [LE α] (h : Place used key age T k i) {j : Fin n} (hj : Holds used key T k j) :
    Holds used key T k i := by
  cases h with
  | own hi => exact hi
  | free hnone _ => exact absurd hj (hnone j)
  | oldest hnone _ _ => exact absurd hj (hnone j)

/-- A key that is written gets no second row. -/
theorem Apart.update [LE α] (hT : Apart used key T) (h : Place used key age T k i) (he : key e = k) :
    Apart used key (Function.update T i e) := by
  -- no other row is the key's
  have honly : ∀ j, j ≠ i → used (T j) = true → key (T j) ≠ k := by
    intro j hj hused hkey
    rcases h.holds ⟨hused, hkey⟩ with ⟨hi, hk⟩
    exact hj (hT j i hused hi (hkey.trans hk.symm))
  intro j l hj hl hjl
  by_cases hji : j = i
  · by_cases hli : l = i
    · rw [hji, hli]
    · rw [hji, Function.update_self, Function.update_of_ne hli, he] at hjl
      rw [Function.update_of_ne hli] at hl
      exact absurd hjl.symm (honly l hli hl)
  · rw [Function.update_of_ne hji] at hj hjl
    by_cases hli : l = i
    · rw [hli, Function.update_self, he] at hjl
      exact absurd hjl (honly j hji hj)
    · rw [Function.update_of_ne hli] at hl hjl
      exact hT j l hj hl hjl

/-! ## Looking for the oldest row -/

section
variable [LE α] [LT α] [DecidableLT α] [Std.IsLinearOrder α] [Std.LawfulOrderLT α] (used age)

/-- One turn of the search: the least age so far, and its row. -/
def olderStep (T : Fin n → ε) (acc : α × Fin n) (i : Fin n) : α × Fin n :=
  if used (T i) && age (T i) < acc.1 then (age (T i), i) else acc

/-- The age that is carried along bounds the row it stands for from above, the others from below. -/
theorem foldl_olderStep (T : Fin n → ε) {acc : α × Fin n} (hacc : age (T acc.2) ≤ acc.1) (l : List (Fin n))
    (hused : ∀ j ∈ l, used (T j) = true) :
    age (T (l.foldl (olderStep used age T) acc).2) ≤ acc.1 ∧
      ∀ j ∈ l, age (T (l.foldl (olderStep used age T) acc).2) ≤ age (T j) := by
  induction l generalizing acc with
  | nil => exact ⟨hacc, fun j hj => absurd hj List.not_mem_nil⟩
  | cons x l ih =>
    have hl : ∀ j ∈ l, used (T j) = true := fun j hj => hused j (List.mem_cons_of_mem x hj)
    rw [List.foldl_cons]
    by_cases hlt : age (T x) < acc.1
    · have hstep : olderStep used age T acc x = (age (T x), x) := by
        simp [olderStep, hused x List.mem_cons_self, hlt]
      have hx : age (T (age (T x), x).2) ≤ (age (T x), x).1 := Std.le_refl _
      rw [hstep]
      rcases ih hx hl with ⟨hle, hrest⟩
      constructor
      · exact Std.le_trans hle (Std.le_of_lt hlt)
      · intro j hj
        rcases List.mem_cons.mp hj with rfl | hj
        · exact hle
        · exact hrest j hj
    · have hstep : olderStep used age T acc x = acc := by simp [olderStep, hlt]
      rw [hstep]
      rcases ih hacc hl with ⟨hle, hrest⟩
      constructor
      · exact hle
      · intro j hj
        rcases List.mem_cons.mp hj with rfl | hj
        · exact Std.le_trans hle (Std.not_lt.mp hlt)
        · exact hrest j hj

end

end KeyedTable
