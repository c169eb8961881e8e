import Mathlib.Data.List.Basic

/-! # Records between separators

A stream of symbols cut at every separator, the record that is not complete yet kept for
what comes next. Cutting a stream in two and going on with what was left over gives the
same records (`cutFrom_append`), whatever the place.
-/

namespace Delimited

variable {α : Type*} [DecidableEq α] (sep : α)

/-- The records of a stream that `line` was in front of, each without its separator, and
what follows the last one. -/
def cutFrom : List α → List α → List (List α) × List α
  | line, [] => ([], line)
  | line, c :: s =>
    if c = sep then (line :: (cutFrom [] s).1, (cutFrom [] s).2) else cutFrom (line ++ [c]) s

variable {sep} {line : List α}

@[simp] theorem cutFrom_nil : cutFrom sep line [] = ([], line) := rfl

theorem cutFrom_sep (s : List α) :
    cutFrom sep line (sep :: s) = (line :: (cutFrom sep [] s).1, (cutFrom sep [] s).2) := by
  rw [cutFrom, if_pos rfl]

/-- What holds no separator only makes the record longer. -/
theorem cutFrom_plain {text : List α} (h : sep ∉ text) (s : List α) :
    cutFrom sep line (text ++ s) = cutFrom sep (line ++ text) s := by
  induction text generalizing line with
  | nil => rw [List.nil_append, List.append_nil]
  | cons c text ih =>
    have hc : c ≠ sep := by
      rintro rfl
      exact h List.mem_cons_self
    rw [List.cons_append, cutFrom, if_neg hc, ih (fun hmem => h (List.mem_cons_of_mem c hmem)),
      List.append_assoc, List.singleton_append]

/-- A stream may be cut anywhere. -/
theorem cutFrom_append (s t : List α) :
    cutFrom sep line (s ++ t) =
      ((cutFrom sep line s).1 ++ (cutFrom sep (cutFrom sep line s).2 t).1,
        (cutFrom sep (cutFrom sep line s).2 t).2) := by
  induction s generalizing line with
  | nil => rfl
  | cons c s ih =>
    by_cases hc : c = sep
    · rw [hc, List.cons_append, cutFrom_sep, cutFrom_sep, ih]
      rfl
    · rw [List.cons_append, cutFrom, if_neg hc, ih, cutFrom, if_neg hc]

/-- The record begun is the start of the next one, or is still what is left. -/
theorem cutFrom_begun (line s : List α) :
    (∃ r ∈ (cutFrom sep line s).1, line <+: r) ∨ line <+: (cutFrom sep line s).2 := by
  induction s generalizing line with
  | nil => exact Or.inr (List.prefix_refl line)
  | cons c s ih =>
    by_cases hc : c = sep
    · rw [hc, cutFrom_sep]
      exact Or.inl ⟨line, List.mem_cons_self, List.prefix_refl line⟩
    · rw [cutFrom, if_neg hc]
      have hlonger := List.prefix_append line [c]
      rcases ih (line ++ [c]) with ⟨r, hr, hpre⟩ | hpre
      · exact Or.inl ⟨r, hr, hlonger.trans hpre⟩
      · exact Or.inr (hlonger.trans hpre)

theorem not_mem_rest {s : List α} (h : sep ∉ line) : sep ∉ (cutFrom sep line s).2 := by
  induction s generalizing line with
  | nil => exact h
  | cons c s ih =>
    by_cases hc : c = sep
    · rw [hc, cutFrom_sep]
      exact ih List.not_mem_nil
    · rw [cutFrom, if_neg hc]
      apply ih
      intro hmem
      rcases List.mem_append.mp hmem with hmem | hmem
      · exact h hmem
      · exact hc (List.mem_singleton.mp hmem).symm

/-- Where no record is complete, all of the stream is left. -/
theorem cutFrom_of_none {s : List α} (h : (cutFrom sep line s).1 = []) : (cutFrom sep line s).2 = line ++ s := by
  induction s generalizing line with
  | nil => exact (List.append_nil line).symm
  | cons c s ih =>
    by_cases hc : c = sep
    · rw [hc, cutFrom_sep] at h
      cases h
    · rw [cutFrom, if_neg hc] at h ⊢
      rw [ih h, List.append_assoc, List.singleton_append]

/-- Records written with their separators are what a stream is cut into. -/
theorem cutFrom_join {lines : List (List α)} {tail : List α} (hlines : ∀ l ∈ lines, sep ∉ l) (htail : sep ∉ tail) :
    cutFrom sep [] ((lines.map (· ++ [sep])).flatten ++ tail) = (lines, tail) := by
  induction lines with
  | nil =>
    have hcut : cutFrom sep [] (tail ++ []) = ([], tail) := cutFrom_plain htail []
    rwa [List.append_nil] at hcut
  | cons l lines ih =>
    have hl := hlines l List.mem_cons_self
    rw [List.map_cons, List.flatten_cons, List.append_assoc, List.append_assoc, cutFrom_plain hl,
      List.singleton_append, cutFrom_sep, ih fun r hr => hlines r (List.mem_cons_of_mem l hr), List.nil_append]

end Delimited
