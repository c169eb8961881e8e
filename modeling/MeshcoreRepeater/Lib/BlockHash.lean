import Mathlib.Tactic.Common
import Mathlib.Data.List.Basic
import Mathlib.Data.List.TakeDrop

/-! # Iterated compression of blocks

A hash that folds a compression function over blocks of `w` symbols. `foldBlocks`
compresses the whole blocks of a message and `rest` is what is left over; an
implementation that takes its input symbol by symbol is related to them one symbol
at a time (`foldBlocks_concat`, `foldBlocks_concat_full`), and a padded message
block by block (`foldBlocks_append`).
-/

namespace BlockHash

variable {σ α : Type} (w : Nat)

/-- The chaining value after the whole blocks of `m`. -/
def foldBlocks (compress : σ → List α → σ) (s : σ) (m : List α) : σ :=
  (List.range (m.length / w)).foldl (fun s i => compress s ((m.drop (i * w)).take w)) s

/-- The symbols after the last whole block. -/
def rest (m : List α) : List α := m.drop (m.length / w * w)

variable {w} {compress : σ → List α → σ}

theorem length_rest (m : List α) : (rest w m).length = m.length % w := by
  rw [rest, List.length_drop, Nat.mod_eq_sub_div_mul]

theorem take_append_rest (m : List α) : m.take (m.length / w * w) ++ rest w m = m :=
  List.take_append_drop ..

@[simp] theorem foldBlocks_nil (s : σ) : foldBlocks w compress s [] = s := by
  simp [foldBlocks]

/-- Blocks inside `m` are read the same from any message that starts with `m`. -/
theorem foldl_range_append (n : Nat) (s : σ) {m m' : List α} (h : n * w ≤ m.length) :
    (List.range n).foldl (fun s i => compress s (((m ++ m').drop (i * w)).take w)) s =
      (List.range n).foldl (fun s i => compress s ((m.drop (i * w)).take w)) s := by
  induction n with
  | zero => rfl
  | succ n ih =>
    have hn : (n + 1) * w = n * w + w := Nat.succ_mul n w
    rw [List.range_succ, List.foldl_append, List.foldl_append, ih (by omega)]
    simp only [List.foldl_cons, List.foldl_nil]
    rw [List.drop_append_of_le_length (by omega),
      List.take_append_of_le_length (by rw [List.length_drop]; omega)]

/-- A symbol that does not fill a block changes nothing but what is left over. -/
theorem foldBlocks_concat (compress : σ → List α → σ) (s : σ) {m : List α} (c : α) (h : m.length % w + 1 < w) :
    foldBlocks w compress s (m ++ [c]) = foldBlocks w compress s m ∧
      rest w (m ++ [c]) = rest w m ++ [c] := by
  have hw : 0 < w := by omega
  have hdiv : (m ++ [c]).length / w = m.length / w := by
    rw [List.length_append, List.length_singleton, Nat.add_div hw, if_neg]
    · rw [Nat.div_eq_of_lt (a := 1) (by omega), Nat.add_zero]
    · rw [Nat.mod_eq_of_lt (a := 1) (by omega)]
      omega
  constructor
  · rw [foldBlocks, hdiv]
    exact foldl_range_append _ s (Nat.div_mul_le_self ..)
  · rw [rest, hdiv, List.drop_append_of_le_length (Nat.div_mul_le_self ..), rest]

/-- The symbol that fills a block has the block compressed, and nothing is left over. -/
theorem foldBlocks_concat_full (compress : σ → List α → σ) (s : σ) {m : List α} (c : α) (h : m.length % w + 1 = w) :
    foldBlocks w compress s (m ++ [c]) = compress (foldBlocks w compress s m) (rest w m ++ [c]) ∧
      rest w (m ++ [c]) = [] := by
  have hlen : (m ++ [c]).length = (m.length / w + 1) * w := by
    have hdm := Nat.div_add_mod m.length w
    have hmul : (m.length / w + 1) * w = w * (m.length / w) + w := by
      rw [Nat.succ_mul, Nat.mul_comm]
    rw [List.length_append, List.length_singleton, hmul]
    omega
  have hdiv : (m ++ [c]).length / w = m.length / w + 1 := by
    rw [hlen, Nat.mul_div_cancel _ (by omega)]
  constructor
  · rw [foldBlocks, hdiv, List.range_succ, List.foldl_append,
      foldl_range_append _ s (Nat.div_mul_le_self ..)]
    simp only [List.foldl_cons, List.foldl_nil]
    rw [List.drop_append_of_le_length (Nat.div_mul_le_self ..), List.take_of_length_le]
    · rfl
    · have hrest : (m.drop (m.length / w * w)).length = m.length % w := length_rest m
      rw [List.length_append, hrest, List.length_singleton]
      omega
  · rw [rest, hdiv, ← hlen, List.drop_length]

/-- One block. -/
theorem foldBlocks_block (s : σ) {b : List α} (hw : 0 < w) (h : b.length = w) :
    foldBlocks w compress s b = compress s b := by
  rw [foldBlocks, h, Nat.div_self hw]
  simp [List.range_succ, ← h]

/-- A message that ends at a block boundary is compressed before what follows it. -/
theorem foldBlocks_append (hw : 0 < w) (s : σ) {m : List α} (hm : m.length % w = 0) (m' : List α) :
    foldBlocks w compress s (m ++ m') = foldBlocks w compress (foldBlocks w compress s m) m' := by
  have hml : m.length / w * w = m.length := Nat.div_mul_cancel (Nat.dvd_of_mod_eq_zero hm)
  have hdiv : (m ++ m').length / w = m.length / w + m'.length / w := by
    conv_lhs => rw [List.length_append, ← hml, Nat.add_comm, Nat.add_mul_div_right _ _ hw]
    exact Nat.add_comm ..
  rw [foldBlocks, hdiv, List.range_add, List.foldl_append, foldl_range_append _ s (by omega),
    List.foldl_map]
  have hdrop : ∀ i, (m ++ m').drop ((m.length / w + i) * w) = m'.drop (i * w) := by
    intro i
    rw [Nat.add_mul, hml, ← List.drop_drop, List.drop_left]
  simp only [hdrop]
  rfl

theorem foldBlocks_of_lt (s : σ) {m : List α} (h : m.length < w) :
    foldBlocks w compress s m = s := by
  rw [foldBlocks, Nat.div_eq_of_lt h]
  rfl

/-- What is left over of a message is compressed with what follows it. -/
theorem foldBlocks_append_rest (hw : 0 < w) (s : σ) (m m' : List α) :
    foldBlocks w compress s (m ++ m') =
      foldBlocks w compress (foldBlocks w compress s m) (rest w m ++ m') := by
  have hwhole : (m.take (m.length / w * w)).length % w = 0 := by
    rw [List.length_take, Nat.min_eq_left (Nat.div_mul_le_self ..), Nat.mul_mod_left]
  have hrest : (rest w m).length < w := by
    rw [length_rest]
    exact Nat.mod_lt _ hw
  have hm : foldBlocks w compress s m = foldBlocks w compress s (m.take (m.length / w * w)) := by
    conv_lhs => rw [← take_append_rest (w := w) m, foldBlocks_append hw s hwhole]
    exact foldBlocks_of_lt _ hrest
  conv_lhs => rw [← take_append_rest (w := w) m, List.append_assoc, foldBlocks_append hw s hwhole]
  rw [← hm]

end BlockHash
