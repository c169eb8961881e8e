import MeshcoreRepeater.Config.File

/-! # What the file's reader hands on

The pairs of key and value that `config_load` gives to `config_set`, from any file: an
over-long line gives none, and a NUL ends what is seen of a line. `parseSetting_iff` says what
a line must look like, and `fileSettings_append` that a file may be cut behind any newline.

* `parseSetting_iff`: what a line sets.
* `parseSetting_front`: a line up to its equals sign decides of which key it is.
* `fileSettings_rawLines`: a file is read line by line.
-/

namespace Meshcore

open ByteLib

/-- The loop of `config_load`: what it passes to `config_set`, in order. `fuel` bounds the
pieces of the file. -/
def readSettings : Nat → Bytes → List (Bytes × Bytes)
  | 0, _ => []
  | fuel + 1, s =>
    if s.isEmpty then []
    else
      let (buf, rest) := fgets loadBuf s
      let line := cstr buf
      if line.length = loadBuf - 1 ∧ line.getLast? ≠ some 10 then
        readSettings fuel (rest.drop (lineLength rest))
      else (parseSetting line).toList ++ readSettings fuel rest

/-- The keys and values `config_load` reads in a file. -/
def fileSettings (file : Bytes) : List (Bytes × Bytes) := readSettings file.length file

/-- In a file without NULs these are the lines that `configLoad` goes through. -/
theorem foldl_fileLines (C : Crypto) (cfg : McConfig) {file : Bytes} (h : (0 : UInt8) ∉ file) :
    (fileLines file).foldl (loadLine C) cfg =
      (fileSettings file).foldl (fun cfg s => (configSet C cfg s.1 s.2).toOption.getD cfg) cfg := by
  rw [fileLines, fileSettings]
  generalize file.length = fuel
  induction fuel generalizing file cfg with
  | zero => rfl
  | succ fuel ih =>
    rw [readLines, readSettings]
    split
    · rfl
    have hbuf : cstr (fgets loadBuf file).1 = (fgets loadBuf file).1 :=
      cstr_of_not_mem fun hmem => h (List.mem_of_mem_take hmem)
    have hrest : (0 : UInt8) ∉ (fgets loadBuf file).2 := fun hmem => h (List.mem_of_mem_drop hmem)
    simp only [hbuf]
    split
    · exact ih cfg fun hmem => hrest (List.mem_of_mem_drop hmem)
    · rw [List.foldl_cons, List.foldl_append, ih _ hrest, loadLine]
      cases parseSetting (fgets loadBuf file).1 with
      | none => rfl
      | some s => rfl

/-! ## Cutting behind a newline -/

/-- Enough fuel is as good as more. -/
theorem readSettings_fuel {fuel fuel' : Nat} {s : Bytes} (h : s.length ≤ fuel) (h' : s.length ≤ fuel') :
    readSettings fuel s = readSettings fuel' s := by
  induction fuel generalizing fuel' s with
  | zero =>
    have hs : s = [] := List.length_eq_zero_iff.mp (Nat.le_zero.mp h)
    subst hs
    cases fuel' with
    | zero => rfl
    | succ fuel' => rfl
  | succ fuel ih =>
    cases fuel' with
    | zero =>
      have hs : s = [] := List.length_eq_zero_iff.mp (Nat.le_zero.mp h')
      subst hs
      rfl
    | succ fuel' =>
      by_cases hs : s = []
      · subst hs
        rfl
      have hrest : (fgets loadBuf s).2.length < s.length := length_fgets_rest (by decide) hs
      have hdrop : ((fgets loadBuf s).2.drop (lineLength (fgets loadBuf s).2)).length ≤ (fgets loadBuf s).2.length := by
        rw [List.length_drop]
        omega
      rw [readSettings, readSettings]
      simp only [ih (s := (fgets loadBuf s).2) (by omega) (by omega : _ ≤ fuel'),
        ih (s := (fgets loadBuf s).2.drop (lineLength (fgets loadBuf s).2)) (by omega) (by omega : _ ≤ fuel')]

/-- One piece of the file. -/
theorem fileSettings_step {s : Bytes} (hs : s ≠ []) :
    fileSettings s =
      if (cstr (fgets loadBuf s).1).length = loadBuf - 1 ∧ (cstr (fgets loadBuf s).1).getLast? ≠ some 10 then
        fileSettings ((fgets loadBuf s).2.drop (lineLength (fgets loadBuf s).2))
      else (parseSetting (cstr (fgets loadBuf s).1)).toList ++ fileSettings (fgets loadBuf s).2 := by
  have hrest : (fgets loadBuf s).2.length < s.length := length_fgets_rest (by decide) hs
  have hdrop : ((fgets loadBuf s).2.drop (lineLength (fgets loadBuf s).2)).length ≤ (fgets loadBuf s).2.length := by
    rw [List.length_drop]
    omega
  obtain ⟨n, hn⟩ : ∃ n, s.length = n + 1 := ⟨s.length - 1, by omega⟩
  have hempty : s.isEmpty = false := by simpa using hs
  rw [fileSettings, hn, readSettings, hempty, fileSettings, fileSettings]
  simp only [Bool.false_eq_true, if_false]
  have hnext : readSettings n (fgets loadBuf s).2 = readSettings (fgets loadBuf s).2.length (fgets loadBuf s).2 :=
    readSettings_fuel (by omega) (Nat.le_refl _)
  have hskip : readSettings n ((fgets loadBuf s).2.drop (lineLength (fgets loadBuf s).2)) =
      readSettings ((fgets loadBuf s).2.drop (lineLength (fgets loadBuf s).2)).length
        ((fgets loadBuf s).2.drop (lineLength (fgets loadBuf s).2)) :=
    readSettings_fuel (by omega) (Nat.le_refl _)
  rw [hnext, hskip]

/-- The reader stands at the start of a line behind every newline. -/
theorem fileSettings_append {s : Bytes} (h : EndsLine s) (t : Bytes) :
    fileSettings (s ++ t) = fileSettings s ++ fileSettings t := by
  generalize hn : s.length = n
  induction n using Nat.strong_induction_on generalizing s with
  | _ n ih =>
    by_cases hs : s = []
    · subst hs
      rfl
    have hmem := h.mem hs
    have hlen : (fgets loadBuf s).2.length < s.length := length_fgets_rest (by decide) hs
    have hends : EndsLine (fgets loadBuf s).2 := h.drop _
    rw [fileSettings_step hs, fileSettings_step (s := s ++ t) (by simp [hs]), fgets_append hmem]
    simp only
    -- a piece too long for the buffer is skipped up to its newline
    split
    · rename_i hlong
      -- a piece that fills the buffer is not all of the line
      have hrest : (fgets loadBuf s).2 ≠ [] := by
        intro hnil
        have hbuf : (fgets loadBuf s).1 = s := by
          have hjoin : (fgets loadBuf s).1 ++ (fgets loadBuf s).2 = s := List.take_append_drop _ s
          rwa [hnil, List.append_nil] at hjoin
        have hshort : (fgets loadBuf s).1.length ≤ loadBuf - 1 := by
          simp only [fgets, List.length_take]
          omega
        have hpre : cstr (fgets loadBuf s).1 <+: (fgets loadBuf s).1 := List.takeWhile_prefix _
        have hcstr : cstr (fgets loadBuf s).1 = s :=
          (hpre.eq_of_length (Nat.le_antisymm hpre.length_le (hlong.1 ▸ hshort))).trans hbuf
        have hlast := List.getLast?_eq_some_getLast hs
        rw [hcstr, hlast, h _ hlast] at hlong
        exact hlong.2 rfl
      have hcut : lineLength (fgets loadBuf s).2 ≤ (fgets loadBuf s).2.length := lineLength_le _
      rw [lineLength_append_of_mem (hends.mem hrest), List.drop_append_of_le_length hcut]
      refine ih _ ?_ (hends.drop _) rfl
      rw [List.length_drop]
      omega
    · rw [ih _ (by omega) hends rfl, List.append_assoc]

/-- A file is read line by line. -/
theorem fileSettings_rawLines (file : Bytes) : fileSettings file = (rawLines file).flatMap fileSettings :=
  flatMap_rawLines rfl (fun _ t h => fileSettings_append h t) file

/-- A line that fits the buffer. -/
theorem fileSettings_line {text : Bytes} (hmem : (10 : UInt8) ∉ text) (hlen : text.length < loadBuf - 1) {line : Bytes}
    (hline : line = text ++ [10] ∨ line = text) : fileSettings line = (parseSetting (cstr line)).toList := by
  by_cases hs : line = []
  · subst hs
    rfl
  have hle : line.length ≤ loadBuf - 1 := by
    rcases hline with rfl | rfl
    · rw [List.length_append, List.length_singleton]
      omega
    · omega
  have hget : fgets loadBuf line = (line, []) := by
    have hcount : lineLength line = line.length := by
      rcases hline with rfl | rfl
      · rw [lineLength_append text [] hmem, List.length_append]
        rfl
      · exact lineLength_of_not_mem hmem
    have hmin : min (loadBuf - 1) (lineLength line) = line.length := by omega
    simp only [fgets, hmin, List.take_length, List.drop_length]
  have hfits : ¬ ((cstr line).length = loadBuf - 1 ∧ (cstr line).getLast? ≠ some 10) := by
    rintro ⟨hfull, hlast⟩
    have hpre : cstr line <+: line := List.takeWhile_prefix _
    have hself : cstr line = line := hpre.eq_of_length (Nat.le_antisymm hpre.length_le (hfull ▸ hle))
    rcases hline with rfl | rfl
    · rw [hself, List.getLast?_concat] at hlast
      exact hlast rfl
    · rw [hself] at hfull
      omega
  rw [fileSettings_step hs, hget, if_neg hfits]
  exact List.append_nil _

/-! ## What a line must look like -/

/-- A key as the reader can find one. -/
structure IsKey (key : Bytes) : Prop where
  ne_nil : key ≠ []
  plain : ∀ c ∈ key, c ≠ 0 ∧ c ≠ 35 ∧ c ≠ 61
  front : skipBlanks key = key
  back : rtrim isBlank key = key

/-- A value as the reader can find one. -/
structure IsValue (val : Bytes) : Prop where
  plain : ∀ c ∈ val, c ≠ 0 ∧ c ≠ 35
  front : skipBlanks val = val
  back : rtrim isBlankOrEol val = val

/-- What the reader of a line does not see: nothing, or what starts with a NUL or a comment. -/
def Unseen (rest : Bytes) : Prop := ∀ c, rest.head? = some c → c = 0 ∨ c = 35

/-- A line that sets `key` to `val`. -/
inductive Sets : Bytes → Bytes → Bytes → Prop where
  | intro {before key pad gap val trail rest : Bytes} : (∀ c ∈ before, isBlank c = true) → IsKey key →
      (∀ c ∈ pad, isBlank c = true) → (∀ c ∈ gap, isBlank c = true) → IsValue val →
      (∀ c ∈ trail, isBlankOrEol c = true) → Unseen rest →
      Sets (before ++ (key ++ (pad ++ 61 :: (gap ++ (val ++ (trail ++ rest)))))) key val

/-- A byte the reader of a line sees. -/
def isSeen (c : UInt8) : Bool := decide (c ≠ 35) && decide (c ≠ 0)

/-- What is seen of a line ends at its first NUL or comment. -/
theorem takeWhile_cstr (line : Bytes) : (cstr line).takeWhile (· ≠ 35) = line.takeWhile isSeen := by
  rw [cstr, List.takeWhile_takeWhile]
  congr 1
  funext c
  simp [isSeen]

/-- Blanks are seen, and are no equals sign. -/
theorem isSeen_of_isBlankOrEol {c : UInt8} (h : isBlankOrEol c = true) : isSeen c = true ∧ c ≠ 61 := by
  simp only [isBlankOrEol, isBlank, Bool.or_eq_true, beq_iff_eq] at h
  rcases h with ((rfl | rfl) | rfl) | rfl
  all_goals decide

/-- A blank is a blank or a line end. -/
theorem isBlankOrEol_of_isBlank {c : UInt8} (h : isBlank c = true) : isBlankOrEol c = true := by
  rw [isBlankOrEol, h]
  rfl

/-- Neither a NUL nor a comment. -/
theorem isSeen_iff {c : UInt8} : isSeen c = true ↔ c ≠ 0 ∧ c ≠ 35 := by
  rw [isSeen, Bool.and_eq_true, decide_eq_true_iff, decide_eq_true_iff]
  exact and_comm

/-- What is seen, before what is not. -/
theorem takeWhile_of_unseen {seen rest : Bytes} (hseen : ∀ c ∈ seen, isSeen c = true) (hrest : Unseen rest) :
    (seen ++ rest).takeWhile isSeen = seen := by
  rw [List.takeWhile_append_of_pos hseen]
  cases rest with
  | nil => exact List.append_nil seen
  | cons c rest =>
    have hc : isSeen c = false := by
      rcases hrest c rfl with rfl | rfl
      · rfl
      · rfl
    rw [List.takeWhile_cons, hc]
    exact List.append_nil seen

/-- A key starts with no blank. -/
theorem head_of_isKey {key : Bytes} (h : IsKey key) (rest : Bytes) : skipBlanks (key ++ rest) = key ++ rest := by
  refine skipBlanks_of_head fun c hc => ?_
  rw [List.head?_append_of_ne_nil _ h.ne_nil] at hc
  rw [← h.front] at hc
  exact isBlank_of_head_skipBlanks hc

/-- A value between blanks is trimmed to itself. -/
theorem trim_value {gap val trail : Bytes} (hgap : ∀ c ∈ gap, isBlank c = true) (hval : IsValue val)
    (htrail : ∀ c ∈ trail, isBlankOrEol c = true) :
    rtrim isBlankOrEol (skipBlanks (gap ++ (val ++ trail))) = val := by
  rw [skipBlanks, List.dropWhile_append_of_pos hgap]
  by_cases hnil : val = []
  · rw [hnil, List.nil_append]
    refine List.rdropWhile_eq_nil_iff.mpr fun c hc => htrail c ?_
    exact (List.dropWhile_suffix _).subset hc
  · have hskip : (val ++ trail).dropWhile isBlank = val ++ trail := by
      refine skipBlanks_of_head fun c hc => ?_
      rw [List.head?_append_of_ne_nil _ hnil, ← hval.front] at hc
      exact isBlank_of_head_skipBlanks hc
    rw [hskip, rtrim_append_of_pos _ htrail, hval.back]

/-- A line of that form sets its key to its value. -/
theorem parseSetting_of_sets {line key val : Bytes} (h : Sets line key val) :
    parseSetting (cstr line) = some (key, val) := by
  rcases h with ⟨hbefore, hkey, hpad, hgap, hval, htrail, hrest⟩
  rename_i before pad gap trail rest
  have hkeySeen : ∀ c ∈ key, isSeen c = true ∧ c ≠ 61 := fun c hc =>
    ⟨isSeen_iff.mpr ⟨(hkey.plain c hc).1, (hkey.plain c hc).2.1⟩, (hkey.plain c hc).2.2⟩
  have hpadSeen : ∀ c ∈ pad, isSeen c = true ∧ c ≠ 61 := fun c hc =>
    isSeen_of_isBlankOrEol (isBlankOrEol_of_isBlank (hpad c hc))
  -- everything before the rest is seen
  have hseen : ∀ c ∈ before ++ (key ++ (pad ++ 61 :: (gap ++ (val ++ trail)))), isSeen c = true := by
    intro c hc
    simp only [List.mem_append, List.mem_cons] at hc
    rcases hc with hc | hc | hc | rfl | hc | hc | hc
    · exact (isSeen_of_isBlankOrEol (isBlankOrEol_of_isBlank (hbefore c hc))).1
    · exact (hkeySeen c hc).1
    · exact (hpadSeen c hc).1
    · rfl
    · exact (isSeen_of_isBlankOrEol (isBlankOrEol_of_isBlank (hgap c hc))).1
    · exact isSeen_iff.mpr (hval.plain c hc)
    · exact (isSeen_of_isBlankOrEol (htrail c hc)).1
  have hfront : ∀ c ∈ key ++ pad, decide (c ≠ 61) = true := by
    intro c hc
    rw [decide_eq_true_iff]
    rcases List.mem_append.mp hc with hc | hc
    · exact (hkeySeen c hc).2
    · exact (hpadSeen c hc).2
  have hline : before ++ (key ++ (pad ++ 61 :: (gap ++ (val ++ (trail ++ rest))))) =
      (before ++ (key ++ (pad ++ 61 :: (gap ++ (val ++ trail))))) ++ rest := by
    simp only [List.append_assoc, List.cons_append]
  -- the blanks in front are skipped
  have hskip : skipBlanks (before ++ (key ++ (pad ++ 61 :: (gap ++ (val ++ trail))))) =
      (key ++ pad) ++ 61 :: (gap ++ (val ++ trail)) := by
    rw [skipBlanks, List.dropWhile_append_of_pos hbefore, List.append_assoc]
    exact head_of_isKey hkey _
  have hmem : ((key ++ pad) ++ 61 :: (gap ++ (val ++ trail))).contains 61 = true := by simp
  -- the key is trimmed to itself
  have hname : rtrim isBlank (key ++ pad) = key := by
    rw [rtrim_append_of_pos _ hpad, hkey.back]
  rw [parseSetting, takeWhile_cstr, hline, takeWhile_of_unseen hseen hrest, hskip]
  simp only [hmem, if_true]
  rw [List.takeWhile_append_of_pos hfront, List.dropWhile_append_of_pos hfront]
  simp only [List.takeWhile_cons, List.dropWhile_cons, ne_eq, not_true_eq_false, decide_false, Bool.false_eq_true,
    if_false, List.append_nil, List.drop_one, List.tail_cons, hname, if_neg hkey.ne_nil,
    trim_value hgap hval htrail]

/-- A text with an equals sign, cut at the first one. -/
theorem cut_at_eq {p : Bytes} (h : p.contains 61 = true) :
    ∃ post, p = p.takeWhile (· ≠ 61) ++ 61 :: post ∧ (p.dropWhile (· ≠ 61)).drop 1 = post := by
  have hsplit := List.takeWhile_append_dropWhile (p := fun c : UInt8 => decide (c ≠ 61)) (l := p)
  have hhead := List.head?_dropWhile_not (fun c : UInt8 => decide (c ≠ 61)) p
  cases hdrop : p.dropWhile (fun c : UInt8 => decide (c ≠ 61)) with
  | nil =>
    have hall := List.dropWhile_eq_nil_iff.mp hdrop 61 (List.contains_iff_mem.mp h)
    cases hall
  | cons c post =>
    rw [hdrop] at hhead hsplit
    have hc : c = 61 := by simpa using hhead
    rw [hc] at hsplit
    exact ⟨post, hsplit.symm, rfl⟩

/-- The rest of a line behind what is seen. -/
theorem unseen_dropWhile (line : Bytes) : Unseen (line.dropWhile isSeen) := by
  intro c hc
  have hhead := List.head?_dropWhile_not isSeen line
  rw [hc] at hhead
  have hnot : ¬ (c ≠ 0 ∧ c ≠ 35) := fun hboth => by
    have hseen : isSeen c = false := hhead
    rw [isSeen_iff.mpr hboth] at hseen
    cases hseen
  by_cases h0 : c = 0
  · exact Or.inl h0
  · exact Or.inr (not_not.mp fun h35 => hnot ⟨h0, h35⟩)

/-- And every line that sets anything is of that form. -/
theorem sets_of_parseSetting {line key val : Bytes} (h : parseSetting (cstr line) = some (key, val)) :
    Sets line key val := by
  rw [parseSetting, takeWhile_cstr] at h
  simp only at h
  split at h
  case isFalse => cases h
  rename_i heq
  split at h
  · cases h
  rename_i hne
  simp only [Option.some.injEq, Prod.mk.injEq] at h
  rcases h with ⟨rfl, rfl⟩
  -- the parts of the line, from its start
  obtain ⟨p, hp⟩ : ∃ p, p = skipBlanks (line.takeWhile isSeen) := ⟨_, rfl⟩
  rw [← hp] at heq hne ⊢
  have hpseen : ∀ c ∈ p, isSeen c = true := by
    intro c hc
    rw [hp] at hc
    exact List.mem_takeWhile_imp ((List.dropWhile_suffix _).subset hc)
  rcases cut_at_eq heq with ⟨post, hpost, hdrop⟩
  rw [hdrop]
  obtain ⟨front, hfrontEq⟩ : ∃ front, front = p.takeWhile (· ≠ 61) := ⟨_, rfl⟩
  rw [← hfrontEq] at hpost hne ⊢
  have hfrontNe : ∀ c ∈ front, c ≠ 61 := fun c hc => by
    rw [hfrontEq] at hc
    simpa using List.mem_takeWhile_imp hc
  have hbody : line.takeWhile isSeen = (line.takeWhile isSeen).takeWhile isBlank ++ p := by
    rw [hp, skipBlanks, List.takeWhile_append_dropWhile]
  have hpad : front = rtrim isBlank front ++ front.rtakeWhile isBlank := List.rdropWhile_append_rtakeWhile.symm
  have hgap : post = post.takeWhile isBlank ++ skipBlanks post := List.takeWhile_append_dropWhile.symm
  have htrail : skipBlanks post =
      rtrim isBlankOrEol (skipBlanks post) ++ (skipBlanks post).rtakeWhile isBlankOrEol :=
    List.rdropWhile_append_rtakeWhile.symm
  have hline : line = (line.takeWhile isSeen).takeWhile isBlank ++ (rtrim isBlank front ++
      (front.rtakeWhile isBlank ++ 61 :: (post.takeWhile isBlank ++ (rtrim isBlankOrEol (skipBlanks post) ++
        ((skipBlanks post).rtakeWhile isBlankOrEol ++ line.dropWhile isSeen))))) := by
    calc line = line.takeWhile isSeen ++ line.dropWhile isSeen := List.takeWhile_append_dropWhile.symm
      _ = (line.takeWhile isSeen).takeWhile isBlank ++ ((rtrim isBlank front ++ front.rtakeWhile isBlank) ++
            61 :: (post.takeWhile isBlank ++ (rtrim isBlankOrEol (skipBlanks post) ++
              (skipBlanks post).rtakeWhile isBlankOrEol))) ++ line.dropWhile isSeen := by
        rw [← htrail, ← hgap, ← hpad, ← hpost, ← hbody]
      _ = _ := by simp only [List.append_assoc, List.cons_append]
  have hfrontMem : ∀ c ∈ front, c ∈ p := fun c hc => by
    rw [hpost]
    exact List.mem_append_left _ hc
  have hpostMem : ∀ c ∈ post, c ∈ p := fun c hc => by
    rw [hpost]
    exact List.mem_append_right _ (List.mem_cons_of_mem _ hc)
  -- what stands before the equals sign, trimmed
  have hkey : IsKey (rtrim isBlank front) := by
    refine ⟨hne, ?_, ?_, rtrim_rtrim _ _⟩
    · intro c hc
      have hcf : c ∈ front := (List.rdropWhile_prefix _ _).subset hc
      have hcp := isSeen_iff.mp (hpseen c (hfrontMem c hcf))
      exact ⟨hcp.1, hcp.2, hfrontNe c hcf⟩
    · refine skipBlanks_of_head fun c hc => ?_
      have hhead : p.head? = some c := by
        have hf := head_of_rtrim hc
        rw [hpost, List.head?_append, hf]
        rfl
      rw [hp] at hhead
      exact isBlank_of_head_skipBlanks hhead
  -- and what stands behind it
  have hval : IsValue (rtrim isBlankOrEol (skipBlanks post)) := by
    refine ⟨?_, ?_, rtrim_rtrim _ _⟩
    · intro c hc
      have hcp : c ∈ post := (List.dropWhile_suffix _).subset ((List.rdropWhile_prefix _ _).subset hc)
      exact isSeen_iff.mp (hpseen c (hpostMem c hcp))
    · exact skipBlanks_of_head fun c hc => isBlank_of_head_skipBlanks (head_of_rtrim hc)
  rw [hline]
  exact Sets.intro (fun c hc => List.mem_takeWhile_imp hc) hkey (fun c hc => List.mem_rtakeWhile_imp hc)
    (fun c hc => List.mem_takeWhile_imp hc) hval (fun c hc => List.mem_rtakeWhile_imp hc) (unseen_dropWhile line)

/-- What a line sets, as far as the reader sees it. -/
theorem parseSetting_iff {line key val : Bytes} :
    parseSetting (cstr line) = some (key, val) ↔ Sets line key val :=
  ⟨sets_of_parseSetting, parseSetting_of_sets⟩

/-- Every setting stands in a piece of the file that has a newline at its end, if at all. -/
theorem of_mem_fileSettings {s key val : Bytes} (h : (key, val) ∈ fileSettings s) :
    ∃ line, (10 : UInt8) ∉ line.dropLast ∧ Sets line key val := by
  generalize hn : s.length = n
  induction n using Nat.strong_induction_on generalizing s with
  | _ n ih =>
    by_cases hs : s = []
    · subst hs
      cases h
    have hlen : (fgets loadBuf s).2.length < s.length := length_fgets_rest (by decide) hs
    rw [fileSettings_step hs] at h
    split at h
    · refine ih _ ?_ h rfl
      rw [List.length_drop]
      omega
    · rcases List.mem_append.mp h with h | h
      · exact ⟨(fgets loadBuf s).1, fgets_dropLast loadBuf s, parseSetting_iff.mp (Option.mem_toList.mp h)⟩
      · exact ih _ (by omega) h rfl

/-- What the reader hands on: a key on one line, and a value. -/
theorem isKey_of_mem_fileSettings {s key val : Bytes} (h : (key, val) ∈ fileSettings s) :
    (10 : UInt8) ∉ key ∧ IsValue val := by
  rcases of_mem_fileSettings h with ⟨line, hline, hsets⟩
  rcases hsets with ⟨-, -, -, -, hval, -, -⟩
  rename_i before pad gap trail rest
  refine ⟨fun hmem => hline ?_, hval⟩
  rw [← List.append_assoc, ← List.append_assoc, List.dropLast_append_of_ne_nil (by simp)]
  exact List.mem_append_left _ (List.mem_append_left _ (List.mem_append_right _ hmem))

/-! ## What stands in front of the equals sign -/

/-- A line up to its first equals sign decides whether it is a setting, and of which key. -/
theorem parseSetting_front {front : Bytes} (h : ∀ c ∈ front, c ≠ 0 ∧ c ≠ 35 ∧ c ≠ 61) (rest : Bytes) :
    parseSetting (cstr (front ++ 61 :: rest)) =
      if rtrim isBlank (skipBlanks front) = [] then none
      else some (rtrim isBlank (skipBlanks front), rtrim isBlankOrEol (skipBlanks (rest.takeWhile isSeen))) := by
  have hseen : (front ++ 61 :: rest).takeWhile isSeen = front ++ 61 :: rest.takeWhile isSeen := by
    rw [List.takeWhile_append_of_pos fun c hc => isSeen_iff.mpr ⟨(h c hc).1, (h c hc).2.1⟩]
    rfl
  have hskip : skipBlanks (front ++ 61 :: rest.takeWhile isSeen) = skipBlanks front ++ 61 :: rest.takeWhile isSeen := by
    rw [skipBlanks, List.dropWhile_append]
    split
    · rename_i hnil
      rw [skipBlanks, List.isEmpty_iff.mp hnil]
      rfl
    · rfl
  have hfront : ∀ c ∈ skipBlanks front, decide (c ≠ (61 : UInt8)) = true := fun c hc =>
    decide_eq_true (h c ((List.dropWhile_suffix _).subset hc)).2.2
  have hcontains : (skipBlanks front ++ 61 :: rest.takeWhile isSeen).contains 61 = true := by simp
  rw [parseSetting, takeWhile_cstr, hseen, hskip]
  simp only [hcontains, if_true]
  rw [List.takeWhile_append_of_pos hfront, List.dropWhile_append_of_pos hfront]
  simp

/-- A line with something in front of its equals sign sets some key. -/
theorem sets_of_front {front : Bytes} (h : ∀ c ∈ front, c ≠ 0 ∧ c ≠ 35 ∧ c ≠ 61)
    (hkey : ∃ c ∈ front, isBlank c = false) (rest : Bytes) : ∃ key val, Sets (front ++ 61 :: rest) key val := by
  have hne : rtrim isBlank (skipBlanks front) ≠ [] := by
    intro hnil
    rcases hkey with ⟨c, hc, hblank⟩
    rw [rtrim, List.rdropWhile_eq_nil_iff] at hnil
    -- the first byte that is no blank is left by both
    cases hskip : skipBlanks front with
    | nil =>
      have hall := List.dropWhile_eq_nil_iff.mp hskip c hc
      rw [hblank] at hall
      cases hall
    | cons b s =>
      have hb := isBlank_of_head_skipBlanks (s := front) (c := b) (by rw [hskip]; rfl)
      rw [hnil b (by rw [hskip]; exact List.mem_cons_self)] at hb
      cases hb
  have hparse := parseSetting_front h rest
  rw [if_neg hne] at hparse
  exact ⟨_, _, parseSetting_iff.mp hparse⟩

/-- A line with a key in front of its equals sign sets that key. -/
theorem sets_key {before key pad : Bytes} (hbefore : ∀ c ∈ before, isBlank c = true) (hkey : IsKey key)
    (hpad : ∀ c ∈ pad, isBlank c = true) (rest : Bytes) :
    ∃ val, Sets (before ++ (key ++ (pad ++ 61 :: rest))) key val := by
  have hplain : ∀ c ∈ before ++ (key ++ pad), c ≠ 0 ∧ c ≠ 35 ∧ c ≠ 61 := by
    have hblank : ∀ c, isBlank c = true → c ≠ 0 ∧ c ≠ 35 ∧ c ≠ 61 := by
      intro c hc
      rcases isSeen_of_isBlankOrEol (isBlankOrEol_of_isBlank hc) with ⟨hseen, heq⟩
      exact ⟨(isSeen_iff.mp hseen).1, (isSeen_iff.mp hseen).2, heq⟩
    intro c hc
    simp only [List.mem_append] at hc
    rcases hc with hc | hc | hc
    · exact hblank c (hbefore c hc)
    · exact hkey.plain c hc
    · exact hblank c (hpad c hc)
  have hname : rtrim isBlank (skipBlanks (before ++ (key ++ pad))) = key := by
    rw [skipBlanks, List.dropWhile_append_of_pos hbefore]
    change rtrim isBlank (skipBlanks (key ++ pad)) = key
    rw [head_of_isKey hkey, rtrim_append_of_pos _ hpad, hkey.back]
  have hline : before ++ (key ++ (pad ++ 61 :: rest)) = (before ++ (key ++ pad)) ++ 61 :: rest := by
    simp only [List.append_assoc]
  have hparse := parseSetting_front hplain rest
  rw [hname, if_neg hkey.ne_nil] at hparse
  exact ⟨_, hline ▸ parseSetting_iff.mp hparse⟩

/-- A line that does not fit the buffer and holds no NUL is skipped. -/
theorem fileSettings_overlong {text : Bytes} (hnl : (10 : UInt8) ∉ text) (hnul : (0 : UInt8) ∉ text)
    (hlen : loadBuf - 1 ≤ text.length) : fileSettings (text ++ [10]) = [] := by
  have hcount : lineLength (text ++ [10]) = text.length + 1 := lineLength_append text [] hnl
  have hmin : min (loadBuf - 1) (lineLength (text ++ [10])) = loadBuf - 1 := by omega
  have hget : fgets loadBuf (text ++ [10]) = (text.take (loadBuf - 1), text.drop (loadBuf - 1) ++ [10]) := by
    simp only [fgets, hmin, List.take_append_of_le_length hlen, List.drop_append_of_le_length hlen]
  have hcstr : cstr (text.take (loadBuf - 1)) = text.take (loadBuf - 1) :=
    cstr_of_not_mem fun hmem => hnul (List.mem_of_mem_take hmem)
  have hfull : (text.take (loadBuf - 1)).length = loadBuf - 1 := by
    rw [List.length_take]
    omega
  have hlast : (text.take (loadBuf - 1)).getLast? ≠ some 10 := by
    intro h
    exact hnl (List.mem_of_mem_take (List.mem_of_getLast? h))
  have hrest : lineLength (text.drop (loadBuf - 1) ++ [10]) = (text.drop (loadBuf - 1) ++ [10]).length := by
    rw [lineLength_append _ [] fun hmem => hnl (List.mem_of_mem_drop hmem), List.length_append]
    rfl
  rw [fileSettings_step (by simp), hget]
  simp only [hcstr]
  rw [if_pos ⟨hfull, hlast⟩, hrest, List.drop_length]
  rfl

end Meshcore
