import Mathlib.Data.List.Basic
import Mathlib.Tactic.Common

/-! # Greedy packing

Items are put on a page while they fit, with a separator of one unit between two of them; an
item that no longer fits starts the next page. `pack` keeps the items in order
(`flatten_pack`), leaves no page empty (`ne_nil_of_mem_pack`) and, when every item fits alone,
none too full (`width_pack`).
-/

namespace Packing

variable {α : Type*} (cost : α → Nat) (budget : Nat)

/-- The room of a list of items on its page. -/
def width : List α → Nat
  | [] => 0
  | [x] => cost x
  | x :: y :: rest => cost x + 1 + width (y :: rest)

/-- An empty page takes no room. -/
@[simp] theorem width_nil : width cost [] = 0 := rfl

@[simp] theorem width_singleton (x : α) : width cost [x] = cost x := rfl

/-- One more item, with a separator unless it is the first. -/
theorem width_concat (list : List α) (x : α) :
    width cost (list ++ [x]) = width cost list + (if list = [] then 0 else 1) + cost x := by
  induction list with
  | nil => simp
  | cons y list ih =>
    cases list with
    | nil => simp [width]
    | cons z list =>
      rw [if_neg (List.cons_ne_nil _ _)] at ih ⊢
      simp only [List.cons_append, width] at ih ⊢
      omega

/-- An item that costs something takes room. -/
theorem width_eq_zero_iff {list : List α} (h : ∀ x ∈ list, 0 < cost x) : width cost list = 0 ↔ list = [] := by
  constructor
  · intro hzero
    rcases list with _ | ⟨x, _ | ⟨y, list⟩⟩
    · rfl
    · have := h x (by simp)
      simp only [width] at hzero
      omega
    · have := h x (by simp)
      simp only [width] at hzero
      omega
  · rintro rfl
    rfl

/-- The pages, when `page` is the one begun. -/
def pack : List α → List α → List (List α)
  | page, [] => [page]
  | page, x :: rest =>
    if page ≠ [] ∧ budget < width cost page + 1 + cost x then page :: pack [x] rest
    else pack (page ++ [x]) rest

/-- Nothing is lost and nothing changes places. -/
theorem flatten_pack (page items : List α) : (pack cost budget page items).flatten = page ++ items := by
  induction items generalizing page with
  | nil => simp [pack]
  | cons x rest ih =>
    unfold pack
    split
    · rw [List.flatten_cons, ih]
      rfl
    · rw [ih, List.append_assoc]
      rfl

/-- There is a page, be it an empty one. -/
theorem pack_ne_nil (page items : List α) : pack cost budget page items ≠ [] := by
  induction items generalizing page with
  | nil => exact List.cons_ne_nil _ _
  | cons x rest ih =>
    unfold pack
    split
    · exact List.cons_ne_nil _ _
    · exact ih _

/-- Items are packed as what is put in their place. -/
theorem pack_map {β : Type*} (cost : β → Nat) (f : α → β) (page items : List α) :
    pack cost budget (page.map f) (items.map f) = (pack (cost ∘ f) budget page items).map (List.map f) := by
  -- the room is counted from the costs alone
  have hwidth : ∀ list : List α, width cost (list.map f) = width (cost ∘ f) list := by
    intro list
    induction list using width.induct with
    | case1 => rfl
    | case2 x => rfl
    | case3 x y rest ih =>
      simp only [List.map_cons, width, Function.comp_apply] at ih ⊢
      rw [ih]
  induction items generalizing page with
  | nil => rfl
  | cons x rest ih =>
    simp only [List.map_cons, pack, hwidth, ne_eq, List.map_eq_nil_iff, Function.comp_apply]
    split
    · rw [List.map_cons, ← ih [x]]
      rfl
    · rw [← ih (page ++ [x]), List.map_append]
      rfl

/-- Only a page that was empty and gets nothing is empty. -/
theorem ne_nil_of_mem_pack {page items : List α} (h : page ≠ [] ∨ items ≠ []) :
    ∀ p ∈ pack cost budget page items, p ≠ [] := by
  induction items generalizing page with
  | nil =>
    intro p hp
    rcases h with h | h
    · rwa [List.mem_singleton.mp hp]
    · exact absurd rfl h
  | cons x rest ih =>
    intro p hp
    unfold pack at hp
    split at hp
    · rename_i hstart
      rcases List.mem_cons.mp hp with rfl | hp
      · exact hstart.1
      · exact ih (.inl (List.cons_ne_nil _ _)) p hp
    · exact ih (.inl (by simp)) p hp

/-- No page is fuller than the budget. -/
theorem width_pack {page items : List α} (hpage : width cost page ≤ budget) (h : ∀ x ∈ items, cost x ≤ budget) :
    ∀ p ∈ pack cost budget page items, width cost p ≤ budget := by
  induction items generalizing page with
  | nil =>
    intro p hp
    rwa [List.mem_singleton.mp hp]
  | cons x rest ih =>
    intro p hp
    -- alone on its page an item fits
    have hx := h x (by simp)
    have hrest : ∀ y ∈ rest, cost y ≤ budget := fun y hy => h y (by simp [hy])
    unfold pack at hp
    split at hp
    · rcases List.mem_cons.mp hp with rfl | hp
      · exact hpage
      · exact @ih [x] hx hrest p hp
    · rename_i hfits
      refine ih ?_ hrest p hp
      rw [width_concat]
      split
      · rename_i hnil
        rw [hnil, width_nil]
        omega
      · rename_i hne
        by_contra hover
        exact hfits ⟨hne, by omega⟩

/-- There are no more pages than items, or one. -/
theorem length_pack (page items : List α) : (pack cost budget page items).length ≤ items.length + 1 := by
  induction items generalizing page with
  | nil => exact Nat.le_refl _
  | cons x rest ih =>
    unfold pack
    split
    · exact Nat.succ_le_succ (ih _)
    · exact Nat.le_trans (ih _) (Nat.le_succ _)

end Packing
