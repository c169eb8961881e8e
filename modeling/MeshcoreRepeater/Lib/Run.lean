import Mathlib.Tactic.Common
import Mathlib.Data.List.Induction

/-! # Runs of a deterministic step function

A run folds a step function over a list of inputs. Invariants are lifted from
one step to whole runs once here (`run_invariant`, and `run_invariant_of` for
runs whose every step meets a side condition), and `exists_writer` finds the
step that wrote the present value of a register.
-/

namespace Runs

variable {σ ι β : Type}

/-- The state after the inputs `xs`, first input first. -/
def run (step : σ → ι → σ) (s : σ) (xs : List ι) : σ := xs.foldl step s

@[simp] theorem run_nil (step : σ → ι → σ) (s : σ) : run step s [] = s := rfl

@[simp] theorem run_cons (step : σ → ι → σ) (s : σ) (x : ι) (xs : List ι) :
    run step s (x :: xs) = run step (step s x) xs := rfl

theorem run_append (step : σ → ι → σ) (s : σ) (xs ys : List ι) :
    run step s (xs ++ ys) = run step (run step s xs) ys := List.foldl_append ..

theorem run_concat (step : σ → ι → σ) (s : σ) (xs : List ι) (x : ι) :
    run step s (xs ++ [x]) = step (run step s xs) x := by
  simp [run_append]

/-- A condition on every step of a run, read in the state before the step. -/
def Every (step : σ → ι → σ) (ok : σ → ι → Prop) : σ → List ι → Prop
  | _, [] => True
  | s, x :: xs => ok s x ∧ Every step ok (step s x) xs

@[simp] theorem every_nil (step : σ → ι → σ) (ok : σ → ι → Prop) (s : σ) :
    Every step ok s [] := trivial

@[simp] theorem every_cons (step : σ → ι → σ) (ok : σ → ι → Prop) (s : σ) (x : ι) (xs : List ι) :
    Every step ok s (x :: xs) ↔ ok s x ∧ Every step ok (step s x) xs := Iff.rfl

theorem every_append (step : σ → ι → σ) (ok : σ → ι → Prop) (s : σ) (xs ys : List ι) :
    Every step ok s (xs ++ ys) ↔ Every step ok s xs ∧ Every step ok (run step s xs) ys := by
  induction xs generalizing s with
  | nil => simp
  | cons x xs ih => simp [ih, and_assoc]

/-- A condition on the inputs alone. -/
theorem every_of_forall_mem {step : σ → ι → σ} {p : ι → Prop} {s : σ} {xs : List ι}
    (h : ∀ x ∈ xs, p x) : Every step (fun _ x => p x) s xs := by
  induction xs generalizing s with
  | nil => trivial
  | cons x xs ih =>
    exact ⟨h x List.mem_cons_self, ih fun y hy => h y (List.mem_cons_of_mem x hy)⟩

/-- Invariant induction for runs whose steps meet `ok`. -/
theorem run_invariant_of {step : σ → ι → σ} (ok : σ → ι → Prop) (inv : σ → Prop)
    (hstep : ∀ s x, ok s x → inv s → inv (step s x)) {s : σ} {xs : List ι}
    (hok : Every step ok s xs) (hinit : inv s) : inv (run step s xs) := by
  induction xs generalizing s with
  | nil => exact hinit
  | cons x xs ih => exact ih hok.2 (hstep s x hok.1 hinit)

/-- Invariant induction for all runs. -/
theorem run_invariant {step : σ → ι → σ} (inv : σ → Prop)
    (hstep : ∀ s x, inv s → inv (step s x)) {s : σ} (hinit : inv s) (xs : List ι) :
    inv (run step s xs) := by
  induction xs generalizing s with
  | nil => exact hinit
  | cons x xs ih => exact ih (hstep s x hinit)

/-- A step function that is seen as another one runs as that one does. -/
theorem run_map {σ' ι' : Type} {step : σ → ι → σ} {step' : σ' → ι' → σ'} (view : σ → σ') (f : ι → ι')
    (h : ∀ s x, view (step s x) = step' (view s) (f x)) (s : σ) (xs : List ι) :
    view (run step s xs) = run step' (view s) (xs.map f) := by
  induction xs generalizing s with
  | nil => rfl
  | cons x xs ih => rw [List.map_cons, run_cons, run_cons, ih, h]

theorem every_map {σ' ι' : Type} {step : σ → ι → σ} {step' : σ' → ι' → σ'} {ok : σ → ι → Prop}
    {ok' : σ' → ι' → Prop} (view : σ → σ') (f : ι → ι') (h : ∀ s x, view (step s x) = step' (view s) (f x))
    (hok : ∀ s x, ok s x ↔ ok' (view s) (f x)) (s : σ) (xs : List ι) :
    Every step ok s xs ↔ Every step' ok' (view s) (xs.map f) := by
  induction xs generalizing s with
  | nil => exact Iff.rfl
  | cons x xs ih => rw [List.map_cons, every_cons, every_cons, ih, h, hok]

/-- Where a step on the inputs of `dom` keeps `inv` exactly when it meets `ok`, a run on
such inputs keeps `inv` throughout exactly when all its steps meet `ok`. -/
theorem inv_throughout_iff_on {step : σ → ι → σ} {ok : σ → ι → Prop} {inv : σ → Prop} (side : σ → Prop)
    (dom : ι → Prop) (hside : ∀ s x, side s → side (step s x))
    (hstep : ∀ s x, dom x → side s → inv s → (inv (step s x) ↔ ok s x)) {s : σ} (hs : side s)
    (hinit : inv s) {xs : List ι} (hdom : ∀ x ∈ xs, dom x) :
    (∀ pre post, xs = pre ++ post → inv (run step s pre)) ↔ Every step ok s xs := by
  induction xs generalizing s with
  | nil =>
    refine ⟨fun _ => trivial, fun _ pre post h => ?_⟩
    rw [(List.append_eq_nil_iff.mp h.symm).1]
    exact hinit
  | cons x xs ih =>
    have hx := hdom x List.mem_cons_self
    have ih := fun {s} hs hinit => ih (s := s) hs hinit fun y hy => hdom y (List.mem_cons_of_mem x hy)
    constructor
    · intro h
      have hfirst : inv (step s x) := h [x] xs rfl
      refine ⟨(hstep s x hx hs hinit).mp hfirst, (ih (hside s x hs) hfirst).mp ?_⟩
      rintro pre post rfl
      exact h (x :: pre) post rfl
    · rintro ⟨hok, hrest⟩ pre post h
      have hfirst : inv (step s x) := (hstep s x hx hs hinit).mpr hok
      cases pre with
      | nil => exact hinit
      | cons y pre =>
        obtain ⟨rfl, rfl⟩ := List.cons.inj h
        exact (ih (hside s x hs) hfirst).mpr hrest pre post rfl

/-- The same for all inputs. -/
theorem inv_throughout_iff {step : σ → ι → σ} {ok : σ → ι → Prop} {inv : σ → Prop} (side : σ → Prop)
    (hside : ∀ s x, side s → side (step s x))
    (hstep : ∀ s x, side s → inv s → (inv (step s x) ↔ ok s x)) {s : σ} (hs : side s)
    (hinit : inv s) (xs : List ι) :
    (∀ pre post, xs = pre ++ post → inv (run step s pre)) ↔ Every step ok s xs :=
  inv_throughout_iff_on side (fun _ => True) hside (fun s x _ => hstep s x) hs hinit fun _ _ => trivial

/-- A register that has changed was last written by some step of the run, and
holds what that step left in it. -/
theorem exists_writer {step : σ → ι → σ} (reg : σ → β) {s : σ} {xs : List ι}
    (h : reg (run step s xs) ≠ reg s) :
    ∃ pre x post, xs = pre ++ x :: post ∧
      reg (step (run step s pre) x) ≠ reg (run step s pre) ∧
      reg (run step s xs) = reg (step (run step s pre) x) := by
  induction xs using List.reverseRecOn with
  | nil => exact absurd rfl h
  | append_singleton xs x ih =>
    rw [run_concat] at h
    by_cases hx : reg (step (run step s xs) x) = reg (run step s xs)
    · -- the last step left the register alone: the writer is an earlier one
      rw [hx] at h
      obtain ⟨pre, y, post, rfl, hne, heq⟩ := ih h
      refine ⟨pre, y, post ++ [x], by simp, hne, ?_⟩
      rw [run_concat, hx, heq]
    · exact ⟨xs, x, [], rfl, hx, by rw [run_concat]⟩

end Runs
