import Mathlib.Tactic.Common
import Mathlib.Logic.Function.Basic
import Mathlib.Data.List.Nodup

/-! # A ring that remembers the last `n` values

A circular array of `n` slots with a write index. `push` overwrites the oldest
slot; a duplicate filter pushes only what the ring does not hold yet.

The two facts a user needs:

* `mem_pushAll_push`: a value survives fewer than `n` later pushes;
* `Fresh.forgotten`: when every push was of an absent value, a value the ring
  has lost was followed by `n` pairwise distinct other values.
-/

/-- `n` slots, written in circular order; `idx` is the slot written next. -/
structure SlotRing (n : Nat) (α : Type) where
  slots : Fin n → α
  idx : Fin n

namespace SlotRing

variable {n : Nat} {α : Type}

/-- The slot after `i`, wrapping round. -/
def next (i : Fin n) : Fin n := ⟨(i.val + 1) % n, Nat.mod_lt _ i.pos⟩

/-- `k` slots after `i`. -/
def after (i : Fin n) (k : Nat) : Fin n := ⟨(i.val + k) % n, Nat.mod_lt _ i.pos⟩

instance : Membership α (SlotRing n α) := ⟨fun r x => ∃ i, r.slots i = x⟩

theorem mem_def (r : SlotRing n α) (x : α) : x ∈ r ↔ ∃ i, r.slots i = x := Iff.rfl

instance [DecidableEq α] (r : SlotRing n α) (x : α) : Decidable (x ∈ r) :=
  inferInstanceAs (Decidable (∃ i, r.slots i = x))

/-- Overwrite the oldest slot. -/
def push (r : SlotRing n α) (x : α) : SlotRing n α where
  slots := Function.update r.slots r.idx x
  idx := next r.idx

/-- Push a list, first element first. -/
def pushAll (r : SlotRing n α) (xs : List α) : SlotRing n α := xs.foldl push r

@[simp] theorem pushAll_nil (r : SlotRing n α) : r.pushAll [] = r := rfl

@[simp] theorem pushAll_cons (r : SlotRing n α) (x : α) (xs : List α) :
    r.pushAll (x :: xs) = (r.push x).pushAll xs := rfl

theorem pushAll_append (r : SlotRing n α) (xs ys : List α) :
    r.pushAll (xs ++ ys) = (r.pushAll xs).pushAll ys := List.foldl_append ..

/-! ## How long a value is remembered -/

@[simp] theorem after_zero (i : Fin n) : after i 0 = i := by
  ext
  simp [after, Nat.mod_eq_of_lt i.isLt]

theorem after_next (i : Fin n) (k : Nat) : after (next i) k = after i (k + 1) := by
  ext
  simp [after, next]
  congr 1
  omega

/-- Going round by less than a full turn does not come back. -/
theorem after_ne (i : Fin n) {k : Nat} (hk : 0 < k) (hn : k < n) : after i k ≠ i := by
  intro h
  have hval : (i.val + k) % n = i.val := congrArg Fin.val h
  have hi := i.isLt
  by_cases hlt : i.val + k < n
  · rw [Nat.mod_eq_of_lt hlt] at hval
    omega
  · rw [Nat.mod_eq_sub_mod (by omega), Nat.mod_eq_of_lt (by omega)] at hval
    omega

/-- A slot keeps its value until the write index reaches it. -/
theorem slots_pushAll (r : SlotRing n α) (xs : List α) (i : Fin n)
    (h : ∀ k < xs.length, after r.idx k ≠ i) : (r.pushAll xs).slots i = r.slots i := by
  induction xs generalizing r with
  | nil => rfl
  | cons x xs ih =>
    have hhead : i ≠ r.idx := by
      have h0 := h 0 (by simp)
      rw [after_zero] at h0
      exact h0.symm
    rw [pushAll_cons, ih]
    · simp [push, hhead]
    · intro k hk
      have hk' := h (k + 1) (by simpa using hk)
      rw [← after_next] at hk'
      exact hk'

/-- A value survives fewer than `n` later pushes. -/
theorem mem_pushAll_push (r : SlotRing n α) (x : α) (xs : List α) (h : xs.length < n) :
    x ∈ (r.push x).pushAll xs := by
  refine ⟨r.idx, ?_⟩
  rw [slots_pushAll]
  · simp [push]
  · intro k hk
    show after (next r.idx) k ≠ r.idx
    rw [after_next]
    exact after_ne r.idx (by omega) (by omega)

/-- One of the last `n` values pushed is held. -/
theorem mem_pushAll_of_mem_drop (r : SlotRing n α) {x : α} {xs : List α}
    (h : x ∈ xs.drop (xs.length - n)) : x ∈ r.pushAll xs := by
  obtain ⟨pre, post, hpost⟩ := List.append_of_mem h
  have hlen : pre.length + (post.length + 1) = xs.length - (xs.length - n) := by
    rw [← List.length_drop, hpost, List.length_append, List.length_cons]
  rw [← List.take_append_drop (xs.length - n) xs, hpost, pushAll_append, pushAll_append, pushAll_cons]
  exact mem_pushAll_push _ x post (by omega)

theorem idx_pushAll (r : SlotRing n α) (xs : List α) : (r.pushAll xs).idx = after r.idx xs.length := by
  induction xs generalizing r with
  | nil => exact (after_zero r.idx).symm
  | cons x xs ih =>
    rw [pushAll_cons, ih]
    exact after_next r.idx xs.length

/-- The last `n` values stand where they were written. -/
theorem slots_pushAll_after (r : SlotRing n α) (xs : List α) {i : Nat} (hi : i < xs.length) (hn : xs.length ≤ i + n) :
    (r.pushAll xs).slots (after r.idx i) = xs[i] := by
  have hsplit : xs = xs.take i ++ xs[i] :: xs.drop (i + 1) := by simp
  have hidx : (r.pushAll (xs.take i)).idx = after r.idx i := by
    rw [idx_pushAll, List.length_take, Nat.min_eq_left (Nat.le_of_lt hi)]
  have hpush : (r.pushAll xs).slots (after r.idx i) =
      (((r.pushAll (xs.take i)).push xs[i]).pushAll (xs.drop (i + 1))).slots (after r.idx i) := by
    rw [← pushAll_cons, ← pushAll_append, ← hsplit]
  rw [hpush, slots_pushAll]
  · rw [← hidx]
    simp [push]
  · intro k hk
    rw [List.length_drop] at hk
    show after (next (r.pushAll (xs.take i)).idx) k ≠ _
    rw [after_next, hidx]
    exact after_ne _ (by omega) (by omega)

/-! ## Filling a blank ring -/

/-- `k` values other than `z` were pushed into a ring of `z`s: they filled it from
the front. -/
structure Filled (z : α) (k : Nat) (r : SlotRing n α) : Prop where
  idx : r.idx.val = k % n
  blank : ∀ i, r.slots i = z ↔ k ≤ i.val

theorem Filled.start (z : α) (hn : 0 < n) : Filled z 0 (⟨fun _ => z, ⟨0, hn⟩⟩ : SlotRing n α) where
  idx := (Nat.zero_mod n).symm
  blank _ := iff_of_true rfl (Nat.zero_le _)

theorem Filled.push {z x : α} {k : Nat} {r : SlotRing n α} (h : Filled z k r) (hx : x ≠ z) :
    Filled z (k + 1) (r.push x) where
  idx := by
    show (r.idx.val + 1) % n = (k + 1) % n
    rw [h.idx, Nat.mod_add_mod]
  blank := by
    intro i
    have hin := i.isLt
    by_cases hi : i = r.idx
    · -- the slot just written
      have hk : i.val ≤ k := by
        rw [hi, h.idx]
        exact Nat.mod_le k n
      simp only [SlotRing.push, hi, Function.update_self]
      exact iff_of_false hx (by rw [← hi]; omega)
    · have hne : i.val ≠ k := by
        intro hk
        refine hi (Fin.ext ?_)
        rw [h.idx, ← hk, Nat.mod_eq_of_lt hin]
      simp only [SlotRing.push, Function.update_of_ne hi, h.blank i]
      omega

theorem Filled.pushAll {z : α} {k : Nat} {r : SlotRing n α} {xs : List α} (h : Filled z k r)
    (hxs : z ∉ xs) : Filled z (k + xs.length) (r.pushAll xs) := by
  induction xs generalizing k r with
  | nil => exact h
  | cons x xs ih =>
    simp only [List.mem_cons, not_or] at hxs
    have := ih (h.push (Ne.symm hxs.1)) hxs.2
    rwa [Nat.add_assoc, Nat.add_comm 1] at this

/-! ## Runs in which only absent values are pushed -/

/-- Every value of the list is absent from the ring when its turn comes. -/
def Fresh (r : SlotRing n α) : List α → Prop
  | [] => True
  | x :: xs => x ∉ r ∧ Fresh (r.push x) xs

@[simp] theorem fresh_nil (r : SlotRing n α) : r.Fresh [] := trivial

@[simp] theorem fresh_cons (r : SlotRing n α) (x : α) (xs : List α) :
    r.Fresh (x :: xs) ↔ x ∉ r ∧ (r.push x).Fresh xs := Iff.rfl

theorem fresh_append (r : SlotRing n α) (xs ys : List α) :
    r.Fresh (xs ++ ys) ↔ r.Fresh xs ∧ (r.pushAll xs).Fresh ys := by
  induction xs generalizing r with
  | nil => simp
  | cons x xs ih => simp [ih, and_assoc]

theorem Fresh.left {r : SlotRing n α} {xs ys : List α} (h : r.Fresh (xs ++ ys)) : r.Fresh xs :=
  ((fresh_append r xs ys).mp h).1

/-- Values other than `z` that two slots hold are different. -/
def Distinct (z : α) (r : SlotRing n α) : Prop :=
  ∀ i j, r.slots i = r.slots j → r.slots i ≠ z → i = j

theorem Distinct.push {z x : α} {r : SlotRing n α} (h : r.Distinct z) (hx : x ∉ r) :
    (r.push x).Distinct z := by
  intro i j heq hne
  have hno : ∀ k, r.slots k ≠ x := fun k hk => hx ⟨k, hk⟩
  by_cases hi : i = r.idx <;> by_cases hj : j = r.idx
  · rw [hi, hj]
  · subst hi
    simp only [SlotRing.push, Function.update_self, Function.update_of_ne hj] at heq
    exact absurd heq.symm (hno j)
  · subst hj
    simp only [SlotRing.push, Function.update_self, Function.update_of_ne hi] at heq
    exact absurd heq (hno i)
  · simp only [SlotRing.push, Function.update_of_ne hi, Function.update_of_ne hj] at heq hne
    exact h i j heq hne

theorem Distinct.pushAll {z : α} {r : SlotRing n α} {xs : List α} (h : r.Distinct z)
    (hfresh : r.Fresh xs) : (r.pushAll xs).Distinct z := by
  induction xs generalizing r with
  | nil => exact h
  | cons x xs ih => exact ih (h.push hfresh.1) hfresh.2

/-- Within a window of `n` fresh pushes after `x`, `x` does not come again. -/
theorem Fresh.not_mem {r : SlotRing n α} {x : α} {xs : List α} (h : (r.push x).Fresh xs)
    (hlen : xs.length ≤ n) : x ∉ xs := by
  intro hmem
  obtain ⟨pre, post, rfl⟩ := List.append_of_mem hmem
  have hfresh : x ∉ (r.push x).pushAll pre := (((fresh_append _ pre _).mp h).2).1
  have hpre : pre.length < n := by simp at hlen; omega
  exact hfresh (mem_pushAll_push r x pre hpre)

/-- `n` fresh pushes in a row are pairwise distinct. -/
theorem Fresh.nodup {r : SlotRing n α} {xs : List α} (h : r.Fresh xs) (hlen : xs.length ≤ n) :
    xs.Nodup := by
  induction xs generalizing r with
  | nil => exact List.nodup_nil
  | cons x xs ih =>
    have hlen' : xs.length ≤ n := by simp at hlen; omega
    exact List.nodup_cons.mpr ⟨h.2.not_mem hlen', ih h.2 hlen'⟩

/-- A value the ring has lost was followed by `n` pairwise distinct other
values. -/
theorem Fresh.forgotten {r : SlotRing n α} {x : α} {xs : List α} (h : (r.push x).Fresh xs)
    (hx : x ∉ (r.push x).pushAll xs) :
    n ≤ xs.length ∧ (xs.take n).Nodup ∧ x ∉ xs.take n := by
  have hlen : n ≤ xs.length := by
    by_contra hlt
    exact hx (mem_pushAll_push r x xs (by omega))
  have hwin : (r.push x).Fresh (xs.take n) := by
    rw [← List.take_append_drop n xs] at h
    exact h.left
  have htake : (xs.take n).length ≤ n := List.length_take_le n xs
  exact ⟨hlen, hwin.nodup htake, hwin.not_mem htake⟩

end SlotRing
