import Mathlib.Tactic.Common
import Mathlib.Data.List.DropRight

/-! # Lines and blanks of a text

Text as Python reads it: universal newlines, `str.splitlines`, `str.strip`. Behind a newline a
text may be cut and its parts read on their own (`fileText_append`, `splitlines_append`).

* `textLines_append`: a text cut behind a newline.
* `unbroken_of_mem_splitlines`, `mem_of_mem_textLines`: what a line holds.
-/

namespace TextLines

/-- `str.isspace` of one character. -/
def isWhite (c : Char) : Bool :=
  (0x09 ≤ c.toNat && c.toNat ≤ 0x0D) || (0x1C ≤ c.toNat && c.toNat ≤ 0x20) || c.toNat == 0x85 || c.toNat == 0xA0 ||
    c.toNat == 0x1680 || (0x2000 ≤ c.toNat && c.toNat ≤ 0x200A) || c.toNat == 0x2028 || c.toNat == 0x2029 ||
    c.toNat == 0x202F || c.toNat == 0x205F || c.toNat == 0x3000

/-- The characters `str.splitlines` ends a line at. -/
def isBreak (c : Char) : Bool :=
  (0x0A ≤ c.toNat && c.toNat ≤ 0x0D) || (0x1C ≤ c.toNat && c.toNat ≤ 0x1E) || c.toNat == 0x85 ||
    c.toNat == 0x2028 || c.toNat == 0x2029

/-- A character that stays on its line. -/
def isInline (c : Char) : Bool := !isBreak c

/-- `str.strip()`. -/
def strip (s : List Char) : List Char := (s.dropWhile isWhite).rdropWhile isWhite

/-- Universal newlines; `cr` tells that the character in front was a `'\r'`. -/
def newlinesFrom (cr : Bool) : List Char → List Char
  | [] => []
  | c :: s =>
    if c = '\r' then '\n' :: newlinesFrom true s
    else if c = '\n' ∧ cr then newlinesFrom false s
    else c :: newlinesFrom false s

/-- A text as it is read from a file in text mode: `'\r\n'` and `'\r'` end a line as `'\n'` does. -/
def universalNewlines (s : List Char) : List Char := newlinesFrom false s

/-- `str.splitlines()`. -/
def splitlines : List Char → List (List Char)
  | [] => []
  | c :: s =>
    -- `'\r\n'` ends one line
    if c = '\r' ∧ s.head? = some '\n' then splitlines s
    else if isBreak c then [] :: splitlines s
    else match splitlines s with
      | [] => [[c]]
      | line :: lines => (c :: line) :: lines

/-! ## Cutting behind a newline -/

/-- What ends a line, or is nothing. -/
def Complete (s : List Char) : Prop := ∀ c, s.getLast? = some c → c = '\n'

/-- Nothing. -/
theorem complete_nil : Complete [] := fun c h => by cases h

/-- What a newline was put behind. -/
theorem complete_concat (s : List Char) : Complete (s ++ ['\n']) := by
  intro c h
  rw [List.getLast?_concat] at h
  exact (Option.some.inj h).symm

/-- Without its first character, where another follows. -/
theorem Complete.tail {c d : Char} {s : List Char} (h : Complete (c :: d :: s)) : Complete (d :: s) := by
  intro e he
  exact h e (by rwa [List.getLast?_cons_cons])

/-- Behind a newline the state of the reader is that of the beginning. -/
theorem newlinesFrom_append {s : List Char} (h : Complete s) (hne : s ≠ []) (cr : Bool) (t : List Char) :
    newlinesFrom cr (s ++ t) = newlinesFrom cr s ++ universalNewlines t := by
  induction s generalizing cr with
  | nil => exact absurd rfl hne
  | cons c s ih =>
    cases s with
    | nil =>
      have hc : c = '\n' := h c rfl
      subst hc
      -- a newline behind a carriage return is dropped, one without is kept; then all is as at first
      cases cr with
      | false => rfl
      | true => rfl
    | cons d s =>
      have hrest := fun cr => ih h.tail (by simp) cr
      rw [List.cons_append, newlinesFrom, newlinesFrom, hrest, hrest]
      split
      · rfl
      split
      · rfl
      · rfl

/-- So a text cut there may be read in two parts. -/
theorem universalNewlines_append {s : List Char} (h : Complete s) (t : List Char) :
    universalNewlines (s ++ t) = universalNewlines s ++ universalNewlines t := by
  by_cases hne : s = []
  · rw [hne]
    rfl
  · exact newlinesFrom_append h hne false t

/-- A text that ends its last line still does. -/
theorem complete_newlinesFrom {s : List Char} (h : Complete s) (cr : Bool) : Complete (newlinesFrom cr s) := by
  induction s generalizing cr with
  | nil => exact complete_nil
  | cons c s ih =>
    cases s with
    | nil =>
      have hc : c = '\n' := h c rfl
      subst hc
      cases cr with
      | false => exact complete_concat []
      | true => exact complete_nil
    | cons d s =>
      -- one character more in front, unless it is alone and no newline
      have hcons : ∀ e cr', e = '\n' ∨ newlinesFrom cr' (d :: s) ≠ [] → Complete (e :: newlinesFrom cr' (d :: s)) := by
        intro e cr' hor x hx
        have hx' := ih h.tail cr'
        cases hrest : newlinesFrom cr' (d :: s) with
        | nil =>
          rw [hrest] at hx hor
          rcases hor with rfl | hne
          · exact (Option.some.inj hx).symm
          · exact absurd rfl hne
        | cons y ys =>
          rw [hrest, List.getLast?_cons_cons] at hx
          rw [hrest] at hx'
          exact hx' x hx
      rw [newlinesFrom]
      split
      · exact hcons _ _ (Or.inl rfl)
      split
      · exact ih h.tail false
      · refine hcons _ _ (Or.inr ?_)
        rw [newlinesFrom]
        split
        · simp
        · simp

/-- The turn of the loop. -/
theorem splitlines_cons (c : Char) (s : List Char) :
    splitlines (c :: s) =
      if c = '\r' ∧ s.head? = some '\n' then splitlines s
      else if isBreak c then [] :: splitlines s
      else match splitlines s with
        | [] => [[c]]
        | line :: lines => (c :: line) :: lines := rfl

/-- A newline ends a line. -/
theorem splitlines_newline (s : List Char) : splitlines ('\n' :: s) = [] :: splitlines s := by
  rw [splitlines_cons, if_neg (by simp), if_pos (by decide)]

/-- A text with a character in it has a line. -/
theorem splitlines_ne_nil {c : Char} {s : List Char} (h : splitlines (c :: s) = []) : False := by
  rw [splitlines_cons] at h
  split at h
  · rename_i hcr
    cases s with
    | nil => cases hcr.2
    | cons d s =>
      have hd : d = '\n' := Option.some.inj hcr.2
      rw [hd, splitlines_newline] at h
      cases h
  split at h
  · cases h
  · split at h
    · cases h
    · cases h

/-- Lines in front of a cut, lines behind it. -/
theorem splitlines_append {s : List Char} (h : Complete s) (t : List Char) :
    splitlines (s ++ t) = splitlines s ++ splitlines t := by
  induction s with
  | nil => rfl
  | cons c s ih =>
    cases s with
    | nil =>
      have hc : c = '\n' := h c rfl
      rw [hc, List.singleton_append, splitlines_newline, splitlines_newline]
      rfl
    | cons d s =>
      have hrest := ih h.tail
      -- whether a newline follows is seen in the first part
      have hhead : ((d :: s) ++ t).head? = (d :: s).head? := rfl
      rw [List.cons_append, splitlines_cons c, splitlines_cons c, hrest, hhead]
      split
      · rfl
      split
      · rfl
      · cases hlines : splitlines (d :: s) with
        | nil => exact (splitlines_ne_nil hlines).elim
        | cons line lines => rfl

/-- The lines of a text read in text mode. -/
def textLines (s : List Char) : List (List Char) := splitlines (universalNewlines s)

/-- A text cut behind a newline. -/
theorem textLines_append {s : List Char} (h : Complete s) (t : List Char) :
    textLines (s ++ t) = textLines s ++ textLines t := by
  have hcomplete : Complete (universalNewlines s) := complete_newlinesFrom h false
  rw [textLines, universalNewlines_append h, splitlines_append hcomplete]
  rfl

/-! ## Text without line breaks -/

/-- Text on one line. -/
def Unbroken (s : List Char) : Prop := ∀ c ∈ s, isBreak c = false

/-- Neither of the line ends of a text file. -/
theorem Unbroken.ne {s : List Char} (h : Unbroken s) {c : Char} (hc : c ∈ s) : c ≠ '\r' ∧ c ≠ '\n' := by
  have hplain := h c hc
  constructor
  · rintro rfl
    cases hplain
  · rintro rfl
    cases hplain

/-- The rest of a line. -/
theorem Unbroken.of_cons {c : Char} {s : List Char} (h : Unbroken (c :: s)) : Unbroken s :=
  fun d hd => h d (List.mem_cons_of_mem c hd)

/-- Universal newlines leave a line as it is. -/
theorem newlinesFrom_unbroken {s : List Char} (h : Unbroken s) (t : List Char) :
    newlinesFrom false (s ++ t) = s ++ newlinesFrom false t := by
  induction s with
  | nil => rfl
  | cons c s ih =>
    rcases h.ne List.mem_cons_self with ⟨hcr, hnl⟩
    rw [List.cons_append, newlinesFrom, if_neg hcr, if_neg (by simp), ih h.of_cons, List.cons_append]

/-- Text in front of the first line break stays what it is. -/
theorem takeWhile_newlinesFrom (s : List Char) :
    (newlinesFrom false s).takeWhile isInline = s.takeWhile isInline := by
  induction s with
  | nil => rfl
  | cons c s ih =>
    rw [newlinesFrom]
    split
    · rename_i hcr
      rw [hcr]
      rfl
    rw [if_neg (by simp), List.takeWhile_cons, List.takeWhile_cons, ih]

/-- The first line goes up to the first break. -/
theorem splitlines_head (s : List Char) (hne : s ≠ []) :
    ∃ lines, splitlines s = s.takeWhile isInline :: lines := by
  induction s with
  | nil => exact absurd rfl hne
  | cons c s ih =>
    rw [splitlines_cons]
    split
    -- a carriage return before its newline: the break is there
    · rename_i hcr
      cases s with
      | nil => cases hcr.2
      | cons d s =>
        have hd : d = '\n' := Option.some.inj hcr.2
        rw [hcr.1, hd, splitlines_newline]
        exact ⟨splitlines s, rfl⟩
    split
    · rename_i hbreak
      rw [List.takeWhile_cons, isInline, hbreak]
      exact ⟨splitlines s, rfl⟩
    · rename_i hplain
      have hplain' : isInline c = true := by simpa [isInline] using hplain
      rw [List.takeWhile_cons, if_pos hplain']
      cases s with
      | nil => exact ⟨[], rfl⟩
      | cons d s =>
        rcases ih (by simp) with ⟨lines, hlines⟩
        rw [hlines]
        exact ⟨lines, rfl⟩

/-- The first line of a text that starts without a break: it goes on up to the first one. -/
theorem textLines_unbroken {s : List Char} (h : Unbroken s) (hne : s ≠ []) (t : List Char) :
    ∃ lines, textLines (s ++ t) = (s ++ t.takeWhile isInline) :: lines := by
  have htake : (s ++ newlinesFrom false t).takeWhile isInline = s ++ t.takeWhile isInline := by
    rw [List.takeWhile_append_of_pos fun c hc => by simp [isInline, h c hc], takeWhile_newlinesFrom]
  rw [textLines, universalNewlines, newlinesFrom_unbroken h, ← htake]
  exact splitlines_head _ (by simp [hne])

/-- One line with its newline is that line. -/
theorem textLines_line {s : List Char} (h : Unbroken s) : textLines (s ++ ['\n']) = [s] := by
  rw [textLines, universalNewlines, newlinesFrom_unbroken h]
  induction s with
  | nil => rfl
  | cons c s ih =>
    have hc : isBreak c = false := h c List.mem_cons_self
    have hcr : c ≠ '\r' := (h.ne List.mem_cons_self).1
    rw [List.cons_append, splitlines_cons, ih h.of_cons, if_neg fun hand => hcr hand.1, if_neg (by simp [hc])]

/-- No line holds a break. -/
theorem unbroken_of_mem_splitlines {s line : List Char} (h : line ∈ splitlines s) : Unbroken line := by
  induction s generalizing line with
  | nil => cases h
  | cons c s ih =>
    rw [splitlines_cons] at h
    split at h
    · exact ih h
    split at h
    · rcases List.mem_cons.mp h with rfl | h
      · intro d hd
        cases hd
      · exact ih h
    · rename_i hplain
      have hc : isBreak c = false := by simpa using hplain
      split at h
      · rw [List.mem_singleton.mp h]
        intro d hd
        rw [List.mem_singleton.mp hd]
        exact hc
      · rename_i first lines hlines
        rcases List.mem_cons.mp h with rfl | h
        · intro d hd
          rcases List.mem_cons.mp hd with rfl | hd
          · exact hc
          · exact ih (hlines ▸ List.mem_cons_self) d hd
        · exact ih (hlines ▸ List.mem_cons_of_mem first h)

/-- Universal newlines bring in newlines, nothing else. -/
theorem mem_newlinesFrom {cr : Bool} {s : List Char} {c : Char} (h : c ∈ newlinesFrom cr s) : c = '\n' ∨ c ∈ s := by
  induction s generalizing cr with
  | nil => cases h
  | cons d s ih =>
    have hrest : ∀ cr, c ∈ newlinesFrom cr s → c = '\n' ∨ c ∈ d :: s := fun cr h =>
      (ih h).imp_right (List.mem_cons_of_mem d)
    rw [newlinesFrom] at h
    split at h
    · rcases List.mem_cons.mp h with h | h
      · exact Or.inl h
      · exact hrest _ h
    split at h
    · exact hrest _ h
    · rcases List.mem_cons.mp h with h | h
      · exact Or.inr (h ▸ List.mem_cons_self)
      · exact hrest _ h

/-- Splitting brings in nothing. -/
theorem mem_of_mem_splitlines {s line : List Char} (h : line ∈ splitlines s) {c : Char} (hc : c ∈ line) : c ∈ s := by
  induction s generalizing line with
  | nil => cases h
  | cons d s ih =>
    rw [splitlines_cons] at h
    split at h
    · exact List.mem_cons_of_mem d (ih h hc)
    split at h
    · rcases List.mem_cons.mp h with rfl | h
      · cases hc
      · exact List.mem_cons_of_mem d (ih h hc)
    split at h
    · rw [List.mem_singleton.mp h] at hc
      rw [List.mem_singleton.mp hc]
      exact List.mem_cons_self
    · rename_i first lines hlines
      rcases List.mem_cons.mp h with rfl | h
      · rcases List.mem_cons.mp hc with rfl | hc
        · exact List.mem_cons_self
        · exact List.mem_cons_of_mem d (ih (hlines ▸ List.mem_cons_self) hc)
      · exact List.mem_cons_of_mem d (ih (hlines ▸ List.mem_cons_of_mem first h) hc)

/-- The lines of a text hold nothing that it does not. -/
theorem mem_of_mem_textLines {s line : List Char} (h : line ∈ textLines s) {c : Char} (hc : c ∈ line) : c ∈ s := by
  rcases mem_newlinesFrom (mem_of_mem_splitlines h hc) with rfl | hmem
  · exact absurd rfl ((unbroken_of_mem_splitlines h).ne hc).2
  · exact hmem

/-! ## Stripping -/

/-- Blanks around a text are stripped with what is stripped of it. -/
theorem strip_append {a s b : List Char} (ha : ∀ c ∈ a, isWhite c = true) (hb : ∀ c ∈ b, isWhite c = true) :
    strip (a ++ s ++ b) = strip s := by
  have hrev : ∀ c ∈ b.reverse, isWhite c = true := fun c hc => hb c (List.mem_reverse.mp hc)
  -- the blanks behind fall off whatever stands in front
  have hend : ∀ t : List Char, (t ++ b).rdropWhile isWhite = t.rdropWhile isWhite := by
    intro t
    simp only [List.rdropWhile, List.reverse_append, List.dropWhile_append_of_pos hrev]
  rw [strip, List.append_assoc, List.dropWhile_append_of_pos ha, List.dropWhile_append]
  split
  -- only blanks in front of `b`
  · rename_i hnil
    have hempty : (b.dropWhile isWhite) = [] := List.dropWhile_eq_nil_iff.mpr hb
    rw [hempty, strip, List.isEmpty_iff.mp hnil]
  · rw [hend]
    rfl

end TextLines
