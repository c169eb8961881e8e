import Mathlib.Tactic.Common
import Mathlib.Data.List.Basic
import Mathlib.Data.List.Perm.Basic

/-! # Tables that fill a hole with their last row

A row is taken out by putting the last one in its place. Who walks such a table from its end,
row by row, and takes out rows on the way, meets every row once: a hole is only filled with a
row that was met before (`walkBack_spec`).
-/

namespace SwapTable

open scoped List

variable {α β σ : Type*}

/-- The table without row `i`, the last one in its place. -/
def swapRemove (l : List α) (i : Nat) : List α :=
  match l.getLast? with
  | some last => (l.set i last).dropLast
  | none => l

/-- Rows in front of the hole stay; those behind it only change places. -/
theorem swapRemove_append (pre : List α) (x : α) (post : List α) :
    ∃ post', post'.Perm post ∧ swapRemove (pre ++ x :: post) pre.length = pre ++ post' := by
  rcases List.eq_nil_or_concat post with rfl | ⟨ys, y, rfl⟩
  · refine ⟨[], List.Perm.refl [], ?_⟩
    rw [swapRemove, List.getLast?_concat]
    simp only [List.set_append_right _ _ (Nat.le_refl _), Nat.sub_self, List.set_cons_zero, List.dropLast_concat,
      List.append_nil]
  · rw [List.concat_eq_append]
    refine ⟨y :: ys, (List.perm_append_singleton y ys).symm, ?_⟩
    have hlast : (pre ++ x :: (ys ++ [y])).getLast? = some y := by
      rw [← List.cons_append, ← List.append_assoc, List.getLast?_concat]
    rw [swapRemove, hlast]
    simp only [List.set_append_right _ _ (Nat.le_refl _), Nat.sub_self, List.set_cons_zero]
    rw [← List.cons_append, ← List.append_assoc, List.dropLast_concat]

theorem length_swapRemove_le (l : List α) (i : Nat) : (swapRemove l i).length ≤ l.length := by
  rw [swapRemove]
  split
  · rw [List.length_dropLast, List.length_set]
    exact Nat.sub_le _ _
  · exact Nat.le_refl _

/-! ## Walking from the end -/

/-- `for (i = k - 1; i >= 0; i--)`. -/
def walkBack (turn : Nat → σ → σ) : Nat → σ → σ
  | 0, s => s
  | i + 1, s => walkBack turn i (turn i s)

/-- The rows among `l` that a walk takes out. -/
def taken (gone : Nat → α → Bool) (l : List α) : List α := (l.zipIdx.filter fun r => gone r.2 r.1).map Prod.fst

/-- The rows among `l` that it leaves in. -/
def kept (gone : Nat → α → Bool) (l : List α) : List α := (l.zipIdx.filter fun r => !gone r.2 r.1).map Prod.fst

/-- What a walk over `l` writes down. -/
def written (out : Nat → α → List β) (l : List α) : List β := l.zipIdx.reverse.flatMap fun r => out r.2 r.1

/-- A turn that looks at its own row only, takes it out or not, and writes something down. -/
structure TurnSpec (table : σ → List α) (log : σ → List β) (turn : Nat → σ → σ) (gone : Nat → α → Bool)
    (out : Nat → α → List β) : Prop where
  keeps : ∀ s pre x post, table s = pre ++ x :: post → gone pre.length x = false →
    table (turn pre.length s) = table s
  takes : ∀ s pre x post, table s = pre ++ x :: post → gone pre.length x = true →
    table (turn pre.length s) = swapRemove (table s) pre.length
  writes : ∀ s pre x post, table s = pre ++ x :: post → log (turn pre.length s) = log s ++ out pre.length x

theorem zipIdx_lt {l : List α} {r : α × Nat} (h : r ∈ l.zipIdx) : r.2 < l.length := by
  have hlt := List.snd_lt_of_mem_zipIdx h
  rwa [Nat.add_zero] at hlt

theorem kept_congr {gone gone' : Nat → α → Bool} {l : List α} (h : ∀ i < l.length, ∀ x, gone i x = gone' i x) :
    kept gone l = kept gone' l := by
  rw [kept, kept]
  congr 1
  apply List.filter_congr
  intro r hr
  rw [h r.2 (zipIdx_lt hr)]

theorem written_congr {out out' : Nat → α → List β} {l : List α} (h : ∀ i < l.length, ∀ x, out i x = out' i x) :
    written out l = written out' l := by
  rw [written, written]
  apply List.flatMap_congr
  intro r hr
  exact h r.2 (zipIdx_lt (List.mem_reverse.mp hr)) r.1

theorem kept_append_taken_perm (gone : Nat → α → Bool) (l : List α) : (kept gone l ++ taken gone l).Perm l := by
  have hfilter : (l.zipIdx.filter (fun r => gone r.2 r.1) ++ l.zipIdx.filter fun r => !gone r.2 r.1).Perm l.zipIdx :=
    List.filter_append_perm (fun r => gone r.2 r.1) l.zipIdx
  have hmap := hfilter.map Prod.fst
  rw [List.map_append, List.zipIdx_map_fst] at hmap
  exact List.perm_append_comm.trans hmap

theorem taken_concat (gone : Nat → α → Bool) (l : List α) (x : α) :
    taken gone (l ++ [x]) = taken gone l ++ if gone l.length x then [x] else [] := by
  rw [taken, taken, List.zipIdx_append, List.filter_append, List.map_append]
  congr 1
  simp only [List.zipIdx_singleton, Nat.zero_add, List.filter_cons, List.filter_nil]
  split
  · rfl
  · rfl

theorem written_concat (out : Nat → α → List β) (l : List α) (x : α) :
    written out (l ++ [x]) = out l.length x ++ written out l := by
  rw [written, written, List.zipIdx_append, List.reverse_append, List.flatMap_append]
  simp only [List.zipIdx_singleton, Nat.zero_add, List.reverse_singleton, List.flatMap_cons, List.flatMap_nil,
    List.append_nil]

/-- A walk over the first rows of a table: each is met once, with what it was in the beginning. -/
theorem walkBack_taken {table : σ → List α} {log : σ → List β} {turn : Nat → σ → σ} {gone : Nat → α → Bool}
    {out : Nat → α → List β} (h : TurnSpec table log turn gone out) {s : σ} {pre post : List α}
    (hs : table s = pre ++ post) :
    (table (walkBack turn pre.length s) ++ taken gone pre).Perm (pre ++ post) ∧
      log (walkBack turn pre.length s) = log s ++ written out pre := by
  -- on the rows still to be met; what stands behind them was met before, in any order
  generalize hn : pre.length = n
  induction n generalizing s pre post with
  | zero =>
    have hnil : pre = [] := List.length_eq_zero_iff.mp hn
    subst hnil
    have hperm : (table s ++ taken gone []).Perm ([] ++ post) := by
      rw [hs]
      exact List.Perm.of_eq (List.append_nil _)
    exact ⟨hperm, (List.append_nil _).symm⟩
  | succ n ih =>
    rcases List.eq_nil_or_concat pre with rfl | ⟨pre, x, rfl⟩
    · cases hn
    rw [List.concat_eq_append] at hs hn ⊢
    have hlen : pre.length = n := by simpa using hn
    subst hlen
    have hrow : table s = pre ++ x :: post := by rw [hs, List.append_assoc, List.singleton_append]
    have hwrites := h.writes s pre x post hrow
    rw [walkBack, taken_concat, written_concat]
    cases hgone : gone pre.length x with
    | false =>
      have hkeeps := h.keeps s pre x post hrow hgone
      rcases ih (hkeeps.trans hrow) rfl with ⟨hperm, hlog⟩
      refine ⟨?_, by rw [hlog, hwrites, List.append_assoc]⟩
      simp only [Bool.false_eq_true, if_false, List.append_nil]
      rw [List.append_assoc, List.singleton_append]
      exact hperm
    | true =>
      -- what fills the hole was met before
      rcases swapRemove_append pre x post with ⟨post', hpost, hswap⟩
      have htakes := h.takes s pre x post hrow hgone
      rw [hrow, hswap] at htakes
      rcases ih htakes rfl with ⟨hperm, hlog⟩
      refine ⟨?_, by rw [hlog, hwrites, List.append_assoc]⟩
      rw [if_pos rfl]
      calc table (walkBack turn pre.length (turn pre.length s)) ++ (taken gone pre ++ [x])
          = (table (walkBack turn pre.length (turn pre.length s)) ++ taken gone pre) ++ [x] :=
            (List.append_assoc _ _ _).symm
        _ ~ (pre ++ post') ++ [x] := hperm.append_right [x]
        _ ~ (pre ++ post) ++ [x] := (hpost.append_left pre).append_right [x]
        _ ~ pre ++ [x] ++ post := by
          rw [List.append_assoc, List.append_assoc]
          exact List.perm_append_comm.append_left pre

/-- What is left of the table are all rows but those that were taken out. -/
theorem walkBack_spec {table : σ → List α} {log : σ → List β} {turn : Nat → σ → σ} {gone : Nat → α → Bool}
    {out : Nat → α → List β} (h : TurnSpec table log turn gone out) {s : σ} {pre post : List α}
    (hs : table s = pre ++ post) :
    (table (walkBack turn pre.length s)).Perm (kept gone pre ++ post) ∧
      log (walkBack turn pre.length s) = log s ++ written out pre := by
  rcases walkBack_taken h hs with ⟨hperm, hlog⟩
  refine ⟨?_, hlog⟩
  have hsplit : (kept gone pre ++ post ++ taken gone pre).Perm (pre ++ post) := by
    have hswap : (kept gone pre ++ post ++ taken gone pre).Perm (kept gone pre ++ taken gone pre ++ post) := by
      rw [List.append_assoc, List.append_assoc]
      exact List.perm_append_comm.append_left (kept gone pre)
    exact hswap.trans ((kept_append_taken_perm gone pre).append_right post)
  exact (List.perm_append_right_iff (taken gone pre)).mp (hperm.trans hsplit.symm)

end SwapTable
