import MeshcoreRepeater.Lib.Run
import Mathlib.Algebra.Group.Basic

/-! # Books kept over a run

What every step of a run takes in and gives out, summed over the run. Where the books
balance at every step they balance over the run (`balance_run`): what is held at the end
and all that went out make up what was held at first and all that came in.
-/

namespace Runs

variable {σ ι M : Type} [AddCommMonoid M]

/-- The sum of `f` over the steps of a run, read in the state before the step. -/
def total (step : σ → ι → σ) (f : σ → ι → M) : σ → List ι → M
  | _, [] => 0
  | s, x :: xs => f s x + total step f (step s x) xs

theorem balance_run {step : σ → ι → σ} {inv : σ → Prop} {held : σ → M} {taken given : σ → ι → M}
    (hinv : ∀ s x, inv s → inv (step s x))
    (h : ∀ s x, inv s → held (step s x) + given s x = held s + taken s x) {s : σ} (hs : inv s) (xs : List ι) :
    held (run step s xs) + total step given s xs = held s + total step taken s xs := by
  induction xs generalizing s with
  | nil => rfl
  | cons x xs ih =>
    have hrest := ih (hinv s x hs)
    rw [run_cons, total, total]
    calc held (run step (step s x) xs) + (given s x + total step given (step s x) xs)
        = held (run step (step s x) xs) + total step given (step s x) xs + given s x := by ac_rfl
      _ = held (step s x) + total step taken (step s x) xs + given s x := by rw [hrest]
      _ = held (step s x) + given s x + total step taken (step s x) xs := by ac_rfl
      _ = held s + taken s x + total step taken (step s x) xs := by rw [h s x hs]
      _ = held s + (taken s x + total step taken (step s x) xs) := by ac_rfl

end Runs
