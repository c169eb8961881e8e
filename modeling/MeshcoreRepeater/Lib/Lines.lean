import MeshcoreRepeater.Lib.Bytes

/-! # Text files read line by line

`fgets` into a buffer of a given size, and the lines a reader gets that drops what
does not fit. `readLines_flatten`: lines that each end in their only newline and
fit the buffer are read back as they were written. A reader that can be cut behind
any newline reads a file line by line (`flatMap_rawLines`), and text that is written
on one line but holds newlines is read as several (`rawLines_append`).
-/

namespace ByteLib

/-- How many bytes stand up to the first newline, that one included. -/
def lineLength (s : Bytes) : Nat :=
  match s with
  | [] => 0
  | c :: s => if c = 10 then 1 else lineLength s + 1

/-- `fgets(line, size)`: what it reads, and what stays in the file. -/
def fgets (size : Nat) (s : Bytes) : Bytes × Bytes :=
  let n := min (size - 1) (lineLength s)
  (s.take n, s.drop n)

/-- The lines of a file as `fgets` delivers them, without those that fill the
buffer before their newline: the rest of such a line is drained. `fuel` bounds the
lines. -/
def readLines (size : Nat) : Nat → Bytes → List Bytes
  | 0, _ => []
  | fuel + 1, s =>
    if s.isEmpty then []
    else
      let (line, rest) := fgets size s
      if line.length = size - 1 ∧ line.getLast? ≠ some 10 then
        readLines size fuel (rest.drop (lineLength rest))
      else line :: readLines size fuel rest

/-- The pieces of a file as `fgets` delivers them, a long line in several. `fuel`
bounds the pieces. -/
def readPieces (size : Nat) : Nat → Bytes → List Bytes
  | 0, _ => []
  | fuel + 1, s =>
    if s.isEmpty then [] else (fgets size s).1 :: readPieces size fuel (fgets size s).2

/-- One line of text: it ends in its only newline. -/
def IsLine (line : Bytes) : Prop := ∃ text, line = text ++ [10] ∧ (10 : UInt8) ∉ text

/-- The first newline ends the line. -/
theorem lineLength_append (text rest : Bytes) (h : (10 : UInt8) ∉ text) :
    lineLength (text ++ 10 :: rest) = text.length + 1 := by
  induction text with
  | nil => rfl
  | cons c text ih =>
    have hc : c ≠ 10 := by
      rintro rfl
      exact h List.mem_cons_self
    have := ih (fun hmem => h (List.mem_cons_of_mem c hmem))
    simp [lineLength, hc, this]

/-- A line that fits the buffer is read whole. -/
theorem fgets_line {size : Nat} {line rest : Bytes} (h : IsLine line) (hlen : line.length < size) :
    fgets size (line ++ rest) = (line, rest) := by
  obtain ⟨text, rfl, hmem⟩ := h
  have hn : lineLength (text ++ [10] ++ rest) = (text ++ [10]).length := by
    simpa using lineLength_append text rest hmem
  -- the buffer is not the bound
  have hmin : min (size - 1) (lineLength (text ++ [10] ++ rest)) = (text ++ [10]).length := by
    rw [hn]
    omega
  simp only [fgets, hmin, List.take_left, List.drop_left]

/-- Lines that fit the buffer are read back. -/
theorem readLines_flatten {size : Nat} {lines : List Bytes}
    (h : ∀ line ∈ lines, IsLine line ∧ line.length < size) (fuel : Nat)
    (hfuel : lines.length ≤ fuel) : readLines size fuel lines.flatten = lines := by
  induction lines generalizing fuel with
  | nil => cases fuel <;> rfl
  | cons line lines ih =>
    obtain ⟨fuel, rfl⟩ : ∃ k, fuel = k + 1 := ⟨fuel - 1, by simp at hfuel; omega⟩
    obtain ⟨hline, hlen⟩ := h line List.mem_cons_self
    have hrest := ih (fun l hl => h l (List.mem_cons_of_mem line hl)) fuel (by simpa using hfuel)
    obtain ⟨text, rfl, hmem⟩ := hline
    have hget : fgets size (text ++ [10] ++ lines.flatten) = (text ++ [10], lines.flatten) :=
      fgets_line ⟨text, rfl, hmem⟩ hlen
    rw [List.flatten_cons, readLines, hget]
    simp [hrest]

/-- So do they come back in pieces, each line in one. -/
theorem readPieces_flatten {size : Nat} {lines : List Bytes}
    (h : ∀ line ∈ lines, IsLine line ∧ line.length < size) (fuel : Nat)
    (hfuel : lines.length ≤ fuel) : readPieces size fuel lines.flatten = lines := by
  induction lines generalizing fuel with
  | nil => cases fuel <;> rfl
  | cons line lines ih =>
    obtain ⟨fuel, rfl⟩ : ∃ k, fuel = k + 1 := ⟨fuel - 1, by simp at hfuel; omega⟩
    obtain ⟨hline, hlen⟩ := h line List.mem_cons_self
    have hrest := ih (fun l hl => h l (List.mem_cons_of_mem line hl)) fuel (by simpa using hfuel)
    have hget : fgets size (line ++ lines.flatten) = (line, lines.flatten) := fgets_line hline hlen
    obtain ⟨text, rfl, -⟩ := hline
    rw [List.flatten_cons, readPieces, hget, hrest]
    simp

/-- No line is empty, so a text is at least as long as it has lines. -/
theorem length_le_flatten {lines : List Bytes} (h : ∀ line ∈ lines, IsLine line) :
    lines.length ≤ lines.flatten.length := by
  induction lines with
  | nil => simp
  | cons line lines ih =>
    obtain ⟨text, rfl, -⟩ := h line List.mem_cons_self
    have := ih fun l hl => h l (List.mem_cons_of_mem _ hl)
    rw [List.flatten_cons, List.length_append, List.length_append, List.length_cons]
    simp only [List.length_singleton]
    omega

/-! ## A line breaks at its end only -/

/-- Before its end a line has no newline. -/
theorem not_mem_take_lineLength (s : Bytes) : (10 : UInt8) ∉ s.take (lineLength s - 1) := by
  induction s with
  | nil => simp
  | cons c s ih =>
    by_cases hc : c = 10
    · simp [lineLength, hc]
    · rw [lineLength, if_neg hc, Nat.add_sub_cancel]
      cases hlen : lineLength s with
      | zero => simp
      | succ n =>
        rw [List.take_succ_cons]
        intro hmem
        rw [hlen, Nat.add_sub_cancel] at ih
        rcases List.mem_cons.mp hmem with rfl | hmem
        · exact hc rfl
        · exact ih hmem

/-- So neither has what `fgets` reads, but for its last byte. -/
theorem fgets_dropLast (size : Nat) (s : Bytes) : (10 : UInt8) ∉ (fgets size s).1.dropLast := by
  intro hmem
  apply not_mem_take_lineLength s
  rw [fgets, List.dropLast_eq_take, List.take_take] at hmem
  -- cut by the buffer or by the line, the last byte is not among these
  have hle : min ((s.take (min (size - 1) (lineLength s))).length - 1) (min (size - 1) (lineLength s)) ≤
      lineLength s - 1 := by
    rw [List.length_take]
    omega
  exact (List.take_subset_take_left s hle) hmem

/-- What a reader gets of a file has a line break at its end, if at all. -/
theorem mem_readLines_dropLast {size fuel : Nat} {s line : Bytes} (h : line ∈ readLines size fuel s) :
    (10 : UInt8) ∉ line.dropLast := by
  induction fuel generalizing s with
  | zero => cases h
  | succ fuel ih =>
    rw [readLines] at h
    split at h
    · cases h
    simp only at h
    split at h
    · exact ih h
    · rcases List.mem_cons.mp h with rfl | h
      · exact fgets_dropLast size s
      · exact ih h

/-! ## Cutting a file behind a newline -/

/-- The lines of a file, each with its newline, if it has one. -/
def rawLines : Bytes → List Bytes
  | [] => []
  | c :: s =>
    if c = 10 then [c] :: rawLines s
    else match rawLines s with
      | [] => [[c]]
      | line :: lines => (c :: line) :: lines

/-- What ends in a newline, or is nothing. -/
def EndsLine (s : Bytes) : Prop := ∀ c, s.getLast? = some c → c = 10

/-- What a newline was put behind. -/
theorem endsLine_concat (s : Bytes) : EndsLine (s ++ [10]) := by
  intro c h
  rw [List.getLast?_concat] at h
  exact (Option.some.inj h).symm

/-- Its rests end in that newline too. -/
theorem EndsLine.drop {s : Bytes} (h : EndsLine s) (n : Nat) : EndsLine (s.drop n) := by
  intro c hc
  apply h
  rw [List.getLast?_drop] at hc
  split at hc
  · cases hc
  · exact hc

/-- Where there is something, there is a newline. -/
theorem EndsLine.mem {s : Bytes} (h : EndsLine s) (hne : s ≠ []) : (10 : UInt8) ∈ s := by
  have hlast := List.getLast?_eq_some_getLast hne
  have h10 := h _ hlast
  rw [h10] at hlast
  exact List.mem_of_getLast? hlast

/-- A line is in its file. -/
theorem lineLength_le (s : Bytes) : lineLength s ≤ s.length := by
  induction s with
  | nil => exact Nat.le_refl 0
  | cons c s ih =>
    rw [lineLength, List.length_cons]
    split
    · omega
    · omega

/-- A line is not empty. -/
theorem lineLength_pos {s : Bytes} (h : s ≠ []) : 0 < lineLength s := by
  cases s with
  | nil => exact absurd rfl h
  | cons c s =>
    rw [lineLength]
    split
    · omega
    · omega

/-- Without a newline the file is one line. -/
theorem lineLength_of_not_mem {s : Bytes} (h : (10 : UInt8) ∉ s) : lineLength s = s.length := by
  induction s with
  | nil => rfl
  | cons c s ih =>
    have hc : c ≠ 10 := by
      rintro rfl
      exact h List.mem_cons_self
    rw [lineLength, if_neg hc, ih fun hmem => h (List.mem_cons_of_mem c hmem), List.length_cons]

/-- What stands behind a newline does not lengthen the line. -/
theorem lineLength_append_of_mem {s : Bytes} (h : (10 : UInt8) ∈ s) (t : Bytes) :
    lineLength (s ++ t) = lineLength s := by
  induction s with
  | nil => cases h
  | cons c s ih =>
    rw [List.cons_append, lineLength, lineLength]
    by_cases hc : c = 10
    · rw [if_pos hc, if_pos hc]
    · have hmem : (10 : UInt8) ∈ s := by
        rcases List.mem_cons.mp h with heq | hmem
        · exact absurd heq.symm hc
        · exact hmem
      rw [if_neg hc, if_neg hc, ih hmem]

/-- `fgets` does not look behind a newline. -/
theorem fgets_append {size : Nat} {s : Bytes} (h : (10 : UInt8) ∈ s) (t : Bytes) :
    fgets size (s ++ t) = ((fgets size s).1, (fgets size s).2 ++ t) := by
  have hle : min (size - 1) (lineLength s) ≤ s.length := Nat.le_trans (Nat.min_le_right _ _) (lineLength_le s)
  simp only [fgets, lineLength_append_of_mem h]
  rw [List.take_append_of_le_length hle, List.drop_append_of_le_length hle]

/-- Each read takes something off. -/
theorem length_fgets_rest {size : Nat} (hsize : 1 < size) {s : Bytes} (h : s ≠ []) :
    (fgets size s).2.length < s.length := by
  have hpos := lineLength_pos h
  have hlen := List.length_pos_iff.mpr h
  simp only [fgets, List.length_drop]
  omega

/-- The first line of a file and the others. -/
theorem rawLines_cases (s : Bytes) :
    s = [] ∨ (∃ text t, s = text ++ 10 :: t ∧ (10 : UInt8) ∉ text ∧ rawLines s = (text ++ [10]) :: rawLines t) ∨
      (s ≠ [] ∧ (10 : UInt8) ∉ s ∧ rawLines s = [s]) := by
  induction s with
  | nil => exact Or.inl rfl
  | cons c s ih =>
    right
    -- a newline in front; else the first line gets one byte more
    by_cases hc : c = 10
    · refine Or.inl ⟨[], s, by rw [hc]; rfl, List.not_mem_nil, ?_⟩
      rw [rawLines, if_pos hc, hc]
      rfl
    rcases ih with rfl | ⟨text, t, rfl, hmem, hlines⟩ | ⟨-, hmem, hlines⟩
    · refine Or.inr ⟨by simp, ?_, ?_⟩
      · intro hmem
        exact hc (List.mem_singleton.mp hmem).symm
      · rw [rawLines, if_neg hc]
        rfl
    · refine Or.inl ⟨c :: text, t, rfl, ?_, ?_⟩
      · intro h
        rcases List.mem_cons.mp h with heq | h
        · exact hc heq.symm
        · exact hmem h
      · rw [rawLines, if_neg hc, hlines]
        rfl
    · refine Or.inr ⟨by simp, ?_, ?_⟩
      · intro h
        rcases List.mem_cons.mp h with heq | h
        · exact hc heq.symm
        · exact hmem h
      · rw [rawLines, if_neg hc, hlines]

/-- A line of a file holds no newline but its last byte. -/
theorem mem_rawLines {s line : Bytes} (h : line ∈ rawLines s) :
    ∃ text, (10 : UInt8) ∉ text ∧ (line = text ++ [10] ∨ line = text) := by
  generalize hn : s.length = n
  induction n using Nat.strong_induction_on generalizing s with
  | _ n ih =>
    rcases rawLines_cases s with rfl | ⟨text, t, rfl, hmem, hlines⟩ | ⟨-, hmem, hlines⟩
    · cases h
    · rw [hlines] at h
      rcases List.mem_cons.mp h with rfl | h
      · exact ⟨text, hmem, Or.inl rfl⟩
      · refine ih t.length ?_ h rfl
        rw [← hn, List.length_append, List.length_cons]
        omega
    · rw [hlines] at h
      rw [List.mem_singleton.mp h]
      exact ⟨s, hmem, Or.inr rfl⟩

/-- What reads a file in parts, wherever it is cut behind a newline, reads it line by line. -/
theorem flatMap_rawLines {β : Type*} {f : Bytes → List β} (hnil : f [] = [])
    (happend : ∀ s t, EndsLine s → f (s ++ t) = f s ++ f t) (s : Bytes) : f s = (rawLines s).flatMap f := by
  generalize hn : s.length = n
  induction n using Nat.strong_induction_on generalizing s with
  | _ n ih =>
    rcases rawLines_cases s with rfl | ⟨text, t, rfl, -, hlines⟩ | ⟨-, -, hlines⟩
    · exact hnil
    · have ht : f t = (rawLines t).flatMap f := by
        refine ih t.length ?_ t rfl
        rw [← hn, List.length_append, List.length_cons]
        omega
      rw [hlines, List.flatMap_cons, ← ht, ← happend _ _ (endsLine_concat text), List.append_assoc,
        List.singleton_append]
    · rw [hlines, List.flatMap_cons, List.flatMap_nil, List.append_nil]

/-- The lines are the file. -/
theorem flatten_rawLines (s : Bytes) : (rawLines s).flatten = s := by
  have h := flatMap_rawLines (f := id) rfl (fun _ _ _ => rfl) s
  rw [List.flatMap_id] at h
  exact h.symm

/-- A line of a text is no longer than the text. -/
theorem length_le_of_mem_rawLines {s line : Bytes} (h : line ∈ rawLines s) : line.length ≤ s.length := by
  have hsub := (List.sublist_flatten_of_mem h).length_le
  rwa [flatten_rawLines] at hsub

/-- Where the last line ends in a newline, all do. -/
theorem isLine_of_mem_rawLines {s line : Bytes} (hs : EndsLine s) (h : line ∈ rawLines s) : IsLine line := by
  generalize hn : s.length = n
  induction n using Nat.strong_induction_on generalizing s with
  | _ n ih =>
    rcases rawLines_cases s with rfl | ⟨text, t, rfl, hmem, hlines⟩ | ⟨hne, hmem, -⟩
    · cases h
    · rw [hlines] at h
      rcases List.mem_cons.mp h with rfl | h
      · exact ⟨text, rfl, hmem⟩
      · refine ih t.length ?_ ?_ h rfl
        · rw [← hn, List.length_append, List.length_cons]
          omega
        · intro c hc
          apply hs c
          rw [List.getLast?_append_of_ne_nil _ (by simp), List.getLast?_cons]
          rw [hc]
          rfl
    · exact absurd (hs.mem hne) hmem

/-- Text in front of a file stands in front of its first line. -/
theorem rawLines_append {text s line : Bytes} {lines : List Bytes} (h : (10 : UInt8) ∉ text)
    (hs : rawLines s = line :: lines) : rawLines (text ++ s) = (text ++ line) :: lines := by
  induction text with
  | nil => exact hs
  | cons c text ih =>
    have hc : c ≠ 10 := by
      rintro rfl
      exact h List.mem_cons_self
    rw [List.cons_append, rawLines, if_neg hc, ih fun hmem => h (List.mem_cons_of_mem c hmem)]
    rfl

/-- The first line of a text that ends its last one. -/
theorem rawLines_concat (v : Bytes) :
    rawLines (v ++ [10]) = (v.takeWhile (· ≠ 10) ++ [10]) :: (rawLines (v ++ [10])).tail := by
  induction v with
  | nil => rfl
  | cons c v ih =>
    by_cases hc : c = 10
    · subst hc
      rfl
    · have htake : (c :: v).takeWhile (· ≠ 10) = c :: v.takeWhile (· ≠ 10) := by
        rw [List.takeWhile_cons, if_pos (decide_eq_true hc)]
      rw [List.cons_append, rawLines, if_neg hc, htake]
      rw [ih]
      rfl

/-- One line is one line. -/
theorem rawLines_of_isLine {line : Bytes} (h : IsLine line) : rawLines line = [line] := by
  rcases h with ⟨text, rfl, hmem⟩
  have hbreak : rawLines [10] = [[10]] := rfl
  exact rawLines_append hmem hbreak

/-- Of a text with a line at its end every line lies in front of it, or has it as its end. -/
theorem mem_rawLines_append {s text line : Bytes} (htext : (10 : UInt8) ∉ text)
    (h : line ∈ rawLines (s ++ (text ++ [10]))) :
    line.length ≤ s.length ∨ ∃ a, line = a ++ (text ++ [10]) ∧ a.length ≤ s.length := by
  induction s generalizing line with
  | nil =>
    rw [List.nil_append, rawLines_of_isLine ⟨text, rfl, htext⟩] at h
    exact .inr ⟨[], List.mem_singleton.mp h, Nat.le_refl 0⟩
  | cons c s ih =>
    -- the other lines lie in the shorter text already
    have hlater : ∀ l ∈ rawLines (s ++ (text ++ [10])),
        l.length ≤ (c :: s).length ∨ ∃ a, l = a ++ (text ++ [10]) ∧ a.length ≤ (c :: s).length := by
      intro l hl
      rcases ih hl with hlen | ⟨a, rfl, ha⟩
      · exact .inl (hlen.trans (Nat.le_succ _))
      · exact .inr ⟨a, rfl, ha.trans (Nat.le_succ _)⟩
    rw [List.cons_append, rawLines] at h
    split at h
    · rcases List.mem_cons.mp h with rfl | h
      · exact .inl (Nat.succ_le_succ (Nat.zero_le _))
      · exact hlater line h
    · split at h
      · rw [List.mem_singleton.mp h]
        exact .inl (Nat.succ_le_succ (Nat.zero_le _))
      · rename_i first lines heq
        rcases List.mem_cons.mp h with rfl | h
        · rcases ih (heq ▸ List.mem_cons_self) with hlen | ⟨a, rfl, ha⟩
          · exact .inl (Nat.succ_le_succ hlen)
          · exact .inr ⟨c :: a, rfl, Nat.succ_le_succ ha⟩
        · exact hlater line (heq ▸ List.mem_cons_of_mem first h)

end ByteLib
