import Mathlib.Tactic.Common
import Mathlib.Order.Lattice
import Mathlib.Data.List.Basic
import Mathlib.Data.Nat.Basic

/-! # Replay protection: a history and its window

A receiver takes each number at most once, and none that lies too far below the largest
it has taken. That is a rule about the whole history (`Accepts`). What a receiver
keeps is the largest number and one bit for each number of a window below it, and
`Tracks` says when these stand for the history. The two ways to take a number are
`Tracks.slide` and `Tracks.mark`, and `Tracks.accepts_iff` reads the rule off the
window.
-/

namespace ReplayWindow

variable {width top seq : ℕ} {taken : List ℕ} {bit bit' : ℕ → Prop}

/-- The largest number taken, 0 when there is none. -/
def largest (taken : List ℕ) : ℕ := taken.foldr max 0

theorem le_largest {n : ℕ} (h : n ∈ taken) : n ≤ largest taken := by
  induction taken with
  | nil => cases h
  | cons m taken ih =>
    have hcons : largest (m :: taken) = max m (largest taken) := rfl
    rw [hcons]
    rcases List.mem_cons.mp h with rfl | h
    · exact le_max_left _ _
    · exact (ih h).trans (le_max_right _ _)

theorem largest_append (taken later : List ℕ) :
    largest (taken ++ later) = max (largest taken) (largest later) := by
  induction taken with
  | nil => simp [largest]
  | cons m taken ih =>
    have hcons : ∀ l, largest (m :: l) = max m (largest l) := fun _ => rfl
    rw [List.cons_append, hcons, hcons, ih, max_assoc]

theorem largest_concat (taken : List ℕ) (seq : ℕ) : largest (taken ++ [seq]) = max (largest taken) seq := by
  rw [largest_append]
  simp [largest]

/-- The rule: a number is at least 1, new, and not `width` or more below the largest. -/
def Accepts (width : ℕ) (taken : List ℕ) (seq : ℕ) : Prop :=
  1 ≤ seq ∧ seq ∉ taken ∧ (taken = [] ∨ largest taken < seq + width)

/-- The window stands for the history: bit `i` for the number `i` below the top. -/
structure Tracks (width : ℕ) (taken : List ℕ) (top : ℕ) (bit : ℕ → Prop) : Prop where
  isTop : top = largest taken
  isBit : ∀ i, i < width → (bit i ↔ ∃ n ∈ taken, n + i = top)

/-- Nothing was taken. -/
theorem Tracks.zero (width : ℕ) (h : ∀ i, i < width → ¬bit i) : Tracks width [] 0 bit where
  isTop := rfl
  isBit := fun i hi => by simp [h i hi]

/-- A number above the top: the window slides up to it. -/
theorem Tracks.slide (h : Tracks width taken top bit) (hseq : top < seq)
    (hbit : ∀ i, i < width → (bit' i ↔ i = 0 ∨ (seq - top ≤ i ∧ bit (i - (seq - top))))) :
    Tracks width (taken ++ [seq]) seq bit' where
  isTop := by
    rw [largest_concat, ← h.isTop]
    omega
  isBit := by
    intro i hi
    rw [hbit i hi]
    constructor
    · rintro (rfl | ⟨hle, hold⟩)
      · exact ⟨seq, by simp, rfl⟩
      · obtain ⟨n, hn, hsum⟩ := (h.isBit _ (by omega)).mp hold
        exact ⟨n, List.mem_append_left _ hn, by omega⟩
    · rintro ⟨n, hn, hsum⟩
      rcases List.mem_append.mp hn with hold | hnew
      · have hle := le_largest hold
        rw [← h.isTop] at hle
        refine Or.inr ⟨by omega, (h.isBit _ (by omega)).mpr ⟨n, hold, by omega⟩⟩
      · obtain rfl := List.mem_singleton.mp hnew
        exact Or.inl (by omega)

/-- A number inside the window: its bit is set. -/
theorem Tracks.mark (h : Tracks width taken top bit) (hseq : seq ≤ top)
    (hbit : ∀ i, i < width → (bit' i ↔ bit i ∨ seq + i = top)) :
    Tracks width (taken ++ [seq]) top bit' where
  isTop := by
    rw [largest_concat, ← h.isTop]
    omega
  isBit := by
    intro i hi
    rw [hbit i hi, h.isBit i hi]
    constructor
    · rintro (⟨n, hn, hsum⟩ | hsum)
      · exact ⟨n, List.mem_append_left _ hn, hsum⟩
      · exact ⟨seq, by simp, hsum⟩
    · rintro ⟨n, hn, hsum⟩
      rcases List.mem_append.mp hn with hold | hnew
      · exact Or.inl ⟨n, hold, hsum⟩
      · obtain rfl := List.mem_singleton.mp hnew
        exact Or.inr hsum

/-- The rule, read off the window. -/
theorem Tracks.accepts_iff (h : Tracks width taken top bit) (seq : ℕ) :
    Accepts width taken seq ↔
      1 ≤ seq ∧ (top < seq ∨ (seq ≤ top ∧ top < seq + width ∧ ¬bit (top - seq))) := by
  unfold Accepts
  rw [← h.isTop]
  refine and_congr_right fun hpos => ?_
  constructor
  · rintro ⟨hnew, hnear⟩
    rcases lt_or_ge top seq with hlt | hle
    · exact Or.inl hlt
    · have hnear' : top < seq + width := by
        rcases hnear with rfl | hnear
        · have := h.isTop
          simp only [largest, List.foldr_nil] at this
          omega
        · exact hnear
      refine Or.inr ⟨hle, hnear', fun hset => ?_⟩
      obtain ⟨n, hn, hsum⟩ := (h.isBit _ (by omega)).mp hset
      obtain rfl : n = seq := by omega
      exact hnew hn
  · rintro (hlt | ⟨hle, hnear, hclear⟩)
    · refine ⟨fun hmem => ?_, Or.inr (by omega)⟩
      have := le_largest hmem
      rw [← h.isTop] at this
      omega
    · exact ⟨fun hmem => hclear ((h.isBit _ (by omega)).mpr ⟨seq, hmem, by omega⟩), Or.inr hnear⟩

end ReplayWindow
