import MeshcoreRepeater.Web.ReadAlike

/-! # The two readers of the configuration

`write_conf` against `config_load`: what the repeater reads of a rewritten file is what it read
before, but for the keys that were changed (`ReadersAgree`).

* `Safe` is the condition: every line is read alike, every new value can be read back, every new
  line fits the reader's buffer.
* `agrees_of_safe`: under it the readers agree.
* `safe_of_agrees`, `safe_of_agrees_orderly`: they agree nowhere else, where the lines that are
  written fit the buffer, and where no key stands where only one of them finds it.
-/

namespace Meshcore

open ByteLib TextLines

/-! ## Agreement -/

/-- The file behind `write_conf`: its new bytes, or the file as it was where the call raises. -/
def saved (changes : Changes CodePoint) (file : Bytes) : Bytes := (writeConf changes file).getD file

/-- What the repeater makes of the rewritten file: the settings of the other keys as before, and
for each changed key the new values in their order. -/
structure ReadersAgree (changes : Changes CodePoint) (file : Bytes) : Prop where
  others : (fileSettings (saved changes file)).filter (fun s => !isChanged changes s.1) =
    (fileSettings file).filter fun s => !isChanged changes s.1
  values : ∀ c ∈ changes,
    ((fileSettings (saved changes file)).filter fun s => strcaseEq (Utf8.encode c.1) s.1).map (fun s => some s.2) =
      c.2.values.map encode?

/-- The new lines, with the comments they keep, fit the buffer of `config_load`. -/
def NewLinesFit (changes : Changes Char) (file : Bytes) : Prop :=
  ∀ c ∈ changes, ∀ line ∈ changeLines c.1 c.2 (firstComment (textLines (Utf8.decode file)) c.1), Fits line

/-- So do the lines that stay, as they are written back. -/
def KeptLinesFit (changes : Changes Char) (file : Bytes) : Prop :=
  ∀ line ∈ rawLines file, ∀ text ∈ keptLines changes line, Fits text

/-- Both readers understand the file and the changes alike: every line is read alike, no new
value holds what the reader cuts off, no key a line end, and the new lines fit. -/
structure Safe (changes : Changes Char) (file : Bytes) : Prop where
  lines : ∀ line ∈ rawLines file, ReadAlike changes line
  values : ∀ c ∈ changes, ∀ x ∈ c.2.values, '\n' ∉ c.1 ∧ PlainValue x
  fits : NewLinesFit changes file

/-- Agreement on changes of characters. -/
structure TextsAgree (changes : Changes Char) (file : Bytes) : Prop where
  others : (fileSettings (rewritten changes file)).filter (fun s => !isChanged changes s.1) =
    (fileSettings file).filter fun s => !isChanged changes s.1
  values : ∀ c ∈ changes,
    ((fileSettings (rewritten changes file)).filter fun s => strcaseEq (Utf8.encode c.1) s.1).map Prod.snd =
      c.2.values.map Utf8.encode

variable {changes : Changes Char} {file : Bytes}

/-! ## Code points -/

/-- Whether a key is changed is a question about its text. -/
theorem isChanged_ofText (changes : Changes Char) (key : Bytes) :
    isChanged changes.ofText key = isChanged changes key := by
  rw [isChanged, Changes.ofText, List.any_map]
  rfl

/-- On text, agreement on code points is agreement on characters. -/
theorem readersAgree_ofText : ReadersAgree changes.ofText file ↔ TextsAgree changes file := by
  have hsaved : saved changes.ofText file = rewritten changes file := by
    rw [saved, writeConf_ofText]
    rfl
  -- every value of text has its encoding, so no `none` stands in the way
  have hsome : ∀ (l : List (Bytes × Bytes)) (xs : List Text),
      l.map (fun s => some s.2) = (xs.map ofText).map encode? ↔ l.map Prod.snd = xs.map Utf8.encode := by
    intro l xs
    have hleft : l.map (fun s => some s.2) = (l.map Prod.snd).map some := by
      rw [List.map_map]
      rfl
    have hright : (xs.map ofText).map encode? = (xs.map Utf8.encode).map some := by
      rw [List.map_map, List.map_map]
      exact List.map_congr_left fun x _ => encode?_ofText x
    rw [hleft, hright, List.map_inj_right fun _ _ => Option.some.inj]
  constructor
  · intro h
    constructor
    · simpa only [hsaved, isChanged_ofText] using h.others
    · intro c hc
      have hmem : (c.1, c.2.ofText) ∈ changes.ofText := List.mem_map_of_mem hc
      have hvalues := h.values _ hmem
      rwa [hsaved, values_ofText, hsome] at hvalues
  · intro h
    constructor
    · simpa only [hsaved, isChanged_ofText] using h.others
    · intro c hc
      rcases List.mem_map.mp hc with ⟨d, hd, rfl⟩
      rw [hsaved, values_ofText, hsome]
      exact h.values d hd

/-- Values that are read back have an encoding, and so are text. -/
theorem ofText_of_agrees {changes : Changes CodePoint} (h : ReadersAgree changes file) :
    ∃ texts : Changes Char, changes = texts.ofText := by
  -- a value that is read back has an encoding: it holds no surrogate
  have hvalue : ∀ c ∈ changes, ∀ x ∈ c.2.values, x ∈ Set.range ofText := by
    intro c hc x hx
    have hmem : encode? x ∈ c.2.values.map encode? := List.mem_map_of_mem hx
    rw [← h.values c hc] at hmem
    rcases List.mem_map.mp hmem with ⟨s, -, hs⟩
    rcases of_encode?_eq_some hs.symm with ⟨t, ht, -⟩
    exact ⟨t, ht.symm⟩
  have hchange : changes ∈ Set.range (List.map fun c : Text × ConfValue Char => (c.1, c.2.ofText)) := by
    rw [Set.range_list_map]
    intro c hc
    rcases c with ⟨k, v⟩
    cases v with
    | one x =>
      rcases hvalue _ hc x (List.mem_singleton_self x) with ⟨t, rfl⟩
      exact ⟨(k, .one t), rfl⟩
    | many xs =>
      have hlist : xs ∈ Set.range (List.map ofText) := by
        rw [Set.range_list_map]
        exact hvalue _ hc
      rcases hlist with ⟨ts, rfl⟩
      exact ⟨(k, .many ts), rfl⟩
  rcases hchange with ⟨texts, rfl⟩
  exact ⟨texts, rfl⟩

/-- The checks of the web admin, on characters. -/
theorem cleaned_of_cleanChanges (h : CleanChanges changes.ofText) : Cleaned changes := by
  have hmem : ∀ c ∈ changes, (c.1, c.2.ofText) ∈ changes.ofText := fun c hc => List.mem_map_of_mem hc
  constructor
  · have hkeys : changes.ofText.map Prod.fst = changes.map Prod.fst := by
      rw [Changes.ofText, List.map_map]
      rfl
    exact hkeys ▸ h.distinct
  · exact fun c hc => h.keys _ (hmem c hc)
  · intro c hc x hx
    have hin : ofText x ∈ c.2.ofText.values := by
      rw [values_ofText]
      exact List.mem_map_of_mem hx
    rcases h.values _ (hmem c hc) _ hin with ⟨raw, hraw⟩
    exact cleanValue_spec hraw

/-! ## Line by line -/

/-- The text of a file is read line by line too. -/
theorem textLines_rawLines (file : Bytes) :
    textLines (Utf8.decode file) = (rawLines file).flatMap fun line => textLines (Utf8.decode line) := by
  refine flatMap_rawLines (f := fun line => textLines (Utf8.decode line)) rfl (fun s t h => ?_) file
  rcases List.eq_nil_or_concat s with rfl | ⟨text, c, rfl⟩
  · rfl
  -- a line but the last one ends in a newline, and the decoder starts afresh behind it
  have hc : c = 10 := h c (by rw [List.concat_eq_append, List.getLast?_concat])
  subst hc
  have hcut := Utf8.decode_ascii (a := 10) (by decide) text t
  have hend := Utf8.decode_ascii (a := 10) (by decide) text []
  have hchar : Char.ofNat (UInt8.toNat 10) = '\n' := rfl
  rw [hchar] at hcut hend
  rw [Utf8.decode_nil] at hend
  rw [List.concat_eq_append, List.append_assoc, List.singleton_append, hcut, hend,
    ← textLines_append (complete_concat _) (Utf8.decode t), List.append_assoc, List.singleton_append]

/-- What the lines in front of new keys are read as. -/
theorem header_settings (h : Prop) [Decidable h] : (if h then [] else addedHeader).flatMap lineSettings = [] := by
  split
  · rfl
  · decide

/-- What the repeater reads of the lines that stay, line by line of the old file. -/
theorem kept_settings (changes : Changes Char) (file : Bytes) :
    ((parts changes (textLines (Utf8.decode file))).filterMap Item.line?).flatMap lineSettings =
      (rawLines file).flatMap (keptSettings changes) := by
  rw [parts_lines, List.flatMap_append, header_settings, List.append_nil, textLines_rawLines, List.filter_flatMap,
    List.flatMap_assoc]
  rfl

/-- A line of a file that is short enough is read whole. -/
theorem line_of_mem_rawLines {line : Bytes} (hline : line ∈ rawLines file)
    (hlen : (line.takeWhile (· ≠ 10)).length < loadBuf - 1) :
    (10 : UInt8) ∉ line.dropLast ∧ fileSettings line = (parseSetting (cstr line)).toList := by
  rcases mem_rawLines hline with ⟨text, hnl, hor⟩
  have htake : line.takeWhile (· ≠ 10) = text := by
    have hplain : ∀ c ∈ text, decide (c ≠ (10 : UInt8)) = true := fun c hc => by
      rw [decide_eq_true_iff]
      rintro rfl
      exact hnl hc
    rcases hor with rfl | rfl
    · rw [List.takeWhile_append_of_pos hplain]
      exact List.append_nil _
    · exact List.takeWhile_eq_self_iff.mpr hplain
  rw [htake] at hlen
  refine ⟨?_, fileSettings_line hnl hlen hor⟩
  rcases hor with rfl | rfl
  · rwa [List.dropLast_concat]
  · exact fun hmem => hnl (List.mem_of_mem_dropLast hmem)

/-! ## The new lines -/

/-- What stands behind the value of a new line. -/
structure IsComment (comment : Text) : Prop where
  head : comment = [] ∨ ∃ rest, comment = '#' :: rest
  newline : '\n' ∉ comment

/-- Nothing is a comment, too. -/
theorem isComment_nil : IsComment [] := ⟨Or.inl rfl, List.not_mem_nil⟩

/-- The comment that is taken over is one. -/
theorem isComment_firstComment (file : Bytes) (k : Text) : IsComment (firstComment (textLines (Utf8.decode file)) k) := by
  by_cases hnil : firstComment (textLines (Utf8.decode file)) k = []
  · rw [hnil]
    exact isComment_nil
  rw [firstComment] at hnil ⊢
  split at hnil
  · rename_i line hfind
    refine ⟨Or.inr (encode_lineComment_head ⟨line, rfl⟩ hnil), fun hmem => ?_⟩
    have hline := unbroken_of_mem_splitlines (List.mem_of_find?_eq_some hfind)
    have hin : '\n' ∈ line := (List.dropWhile_suffix _).subset hmem
    exact (hline.ne hin).2 rfl
  · exact absurd rfl hnil

/-- The new lines are the values, with one comment or none. -/
theorem changeLines_map (key : Text) (value : ConfValue Char) (comment : Text) :
    ∃ comment', (comment' = [] ∨ comment' = comment) ∧
      changeLines key value comment = value.values.map fun x => fmt key x comment' := by
  cases value with
  | one v => exact ⟨comment, Or.inr rfl, rfl⟩
  | many vs => exact ⟨[], Or.inl rfl, rfl⟩

instance (text : Text) : Decidable (Fits text) := inferInstanceAs (Decidable ((Utf8.encode text).length < loadBuf - 1))

/-- A new line is read as its key and its value, or not at all. -/
theorem lineSettings_new (hclean : Cleaned changes) {c : Text × ConfValue Char} (hc : c ∈ changes) {x comment : Text}
    (hx : x ∈ c.2.values) (hvalue : '\n' ∉ c.1 ∧ PlainValue x) (hcomment : IsComment comment)
    (hor : Fits (fmt c.1 x comment) ∨ '\x00' ∉ comment) :
    lineSettings (fmt c.1 x comment) = if Fits (fmt c.1 x comment) then [(Utf8.encode c.1, Utf8.encode x)] else [] := by
  rcases hclean.values c hc x hx with ⟨hxnl, hback⟩
  by_cases hfits : Fits (fmt c.1 x comment)
  · rw [if_pos hfits]
    exact lineSettings_fmt (hclean.keys c hc) hvalue.1 (isValue_encode hvalue.2 hback) hxnl hcomment.head
      hcomment.newline hfits
  · rw [if_neg hfits]
    -- a line that does not fit is cut in pieces: none of them may end in a NUL
    have hnul := hor.resolve_left hfits
    have hmem : ∀ d ∈ fmt c.1 x comment, d ≠ '\n' ∧ d ≠ '\x00' := by
      have hkeyNul : '\x00' ∉ c.1 := by
        intro hmem
        rcases (keyRe_chars (hclean.keys c hc)).2 _ hmem with h | h
        · exact absurd h (by decide)
        · exact absurd h (by decide)
      intro d hd
      rw [fmt_text] at hd
      simp only [List.mem_append, List.mem_replicate] at hd
      rcases hd with (((hd | hd) | hd) | hd) | hd
      · exact ⟨fun h => hvalue.1 (h ▸ hd), fun h => hkeyNul (h ▸ hd)⟩
      · rw [hd.2]
        decide
      · have hplain : ∀ d ∈ " = ".toList, d ≠ '\n' ∧ d ≠ '\x00' := by simp
        exact hplain d hd
      · exact ⟨fun h => hxnl (h ▸ hd), fun h => hvalue.2.nul (h ▸ hd)⟩
      · split at hd
        · cases hd
        rcases List.mem_append.mp hd with hd | hd
        · have hplain : ∀ d ∈ "    ".toList, d ≠ '\n' ∧ d ≠ '\x00' := by simp
          exact hplain d hd
        · exact ⟨fun h => hcomment.newline (h ▸ hd), fun h => hnul (h ▸ hd)⟩
    refine fileSettings_overlong (fun h => ?_) (fun h => ?_) (Nat.not_lt.mp hfits)
    · exact (hmem _ ((Utf8.mem_encode_ascii (by decide)).mp h)).1 rfl
    · exact (hmem _ ((Utf8.mem_encode_ascii (by decide)).mp h)).2 rfl

/-- The comments that are kept hold no NUL, or are in lines that fit. -/
def CommentsWhole (changes : Changes Char) (file : Bytes) : Prop :=
  NewLinesFit changes file ∨ ∀ k, '\x00' ∉ firstComment (textLines (Utf8.decode file)) k

/-! ## A rewritten file -/

section Written

variable (hclean : Cleaned changes) (hvalues : ∀ c ∈ changes, ∀ x ∈ c.2.values, '\n' ∉ c.1 ∧ PlainValue x)
  (hwhole : CommentsWhole changes file)

include hclean hvalues hwhole

/-- A change, read in its own lines. -/
theorem changeLines_settings {c : Text × ConfValue Char} (hc : c ∈ changes) :
    ∃ comment, changeLines c.1 c.2 (firstComment (textLines (Utf8.decode file)) c.1) =
        c.2.values.map (fun x => fmt c.1 x comment) ∧
      ∀ x ∈ c.2.values, lineSettings (fmt c.1 x comment) =
        if Fits (fmt c.1 x comment) then [(Utf8.encode c.1, Utf8.encode x)] else [] := by
  rcases changeLines_map c.1 c.2 (firstComment (textLines (Utf8.decode file)) c.1) with ⟨comment, hcomment, hlines⟩
  refine ⟨comment, hlines, fun x hx => lineSettings_new hclean hc hx (hvalues c hc x hx) ?_ ?_⟩
  · rcases hcomment with rfl | rfl
    · exact isComment_nil
    · exact isComment_firstComment file c.1
  · rcases hwhole with hfits | hnul
    · refine Or.inl (hfits c hc _ ?_)
      rw [hlines]
      exact List.mem_map_of_mem hx
    · right
      rcases hcomment with rfl | rfl
      · exact List.not_mem_nil
      · exact hnul c.1

/-- The new lines of a change are read under its key. -/
theorem key_of_mem_changeLines {c : Text × ConfValue Char} (hc : c ∈ changes) {s : Bytes × Bytes}
    (hs : s ∈ (changeLines c.1 c.2 (firstComment (textLines (Utf8.decode file)) c.1)).flatMap lineSettings) :
    s.1 = Utf8.encode c.1 := by
  rcases changeLines_settings hclean hvalues hwhole hc with ⟨comment, hlines, hread⟩
  rw [hlines] at hs
  rcases List.mem_flatMap.mp hs with ⟨line, hline, hs⟩
  rcases List.mem_map.mp hline with ⟨x, hx, rfl⟩
  rw [hread x hx] at hs
  split at hs
  · rw [List.mem_singleton.mp hs]
  · cases hs

/-- So is every item that puts a key in. -/
theorem put_settings {k : Text} {v : ConfValue Char} {comment : Text}
    (h : Item.put k v comment ∈ parts changes (textLines (Utf8.decode file))) :
    (k, v) ∈ changes ∧ ∀ s ∈ (Item.put k v comment).settings, s.1 = Utf8.encode k := by
  rcases of_put_mem_parts hclean.distinct h with ⟨hmem, rfl⟩
  exact ⟨hmem, fun s hs => key_of_mem_changeLines hclean hvalues hwhole hmem hs⟩

/-- The settings of the keys that were not changed are those of the lines that stay. -/
theorem others_settings :
    (fileSettings (rewritten changes file)).filter (fun s => !isChanged changes s.1) =
      (rawLines file).flatMap fun line => (keptSettings changes line).filter fun s => !isChanged changes s.1 := by
  rw [fileSettings_rewritten, filter_settings, kept_settings, List.filter_flatMap]
  intro k v comment hput
  rcases put_settings hclean hvalues hwhole hput with ⟨hmem, hread⟩
  rw [List.filter_eq_nil_iff]
  intro s hs
  have hchanged : isChanged changes s.1 = true := by
    rw [hread s hs]
    exact isChanged_iff.mpr ⟨(k, v), hmem, strcaseEq_refl _⟩
  simp [hchanged]

/-- The settings of a changed key are those of its new lines, among those of the lines that stay. -/
theorem key_settings {c : Text × ConfValue Char} (hc : c ∈ changes) :
    ∃ pre post, pre ++ post = (parts changes (textLines (Utf8.decode file))).filterMap Item.line? ∧
      (fileSettings (rewritten changes file)).filter (fun s => strcaseEq (Utf8.encode c.1) s.1) =
        (pre.flatMap lineSettings).filter (fun s => strcaseEq (Utf8.encode c.1) s.1) ++
          (changeLines c.1 c.2 (firstComment (textLines (Utf8.decode file)) c.1)).flatMap lineSettings ++
          (post.flatMap lineSettings).filter fun s => strcaseEq (Utf8.encode c.1) s.1 := by
  have hput : Item.put c.1 c.2 (firstComment (textLines (Utf8.decode file)) c.1) ∈
      parts changes (textLines (Utf8.decode file)) := put_mem_parts hclean.distinct hc
  -- each key is put in once
  have hnodup := parts_nodup hclean.distinct (textLines (Utf8.decode file))
  have hsettings := (put_settings hclean hvalues hwhole hput).2
  rcases List.append_of_mem hput with ⟨before, after, hparts⟩
  rw [hparts, List.filterMap_append, List.filterMap_cons] at hnodup
  -- the other changes have other keys
  have hother : ∀ k v comment, Item.put k v comment ∈ before ++ after →
      (Item.put k v comment).settings.filter (fun s => strcaseEq (Utf8.encode c.1) s.1) = [] := by
    intro k v comment hmem
    have hin : Item.put k v comment ∈ parts changes (textLines (Utf8.decode file)) := by
      rw [hparts]
      rcases List.mem_append.mp hmem with hmem | hmem
      · exact List.mem_append_left _ hmem
      · exact List.mem_append_right _ (List.mem_cons_of_mem _ hmem)
    rcases put_settings hclean hvalues hwhole hin with ⟨hmemc, hread⟩
    have hne : c.1 ≠ k := by
      rintro rfl
      have hmid := (List.nodup_middle.mp hnodup)
      rw [List.nodup_cons] at hmid
      apply hmid.1
      rw [← List.filterMap_append]
      exact List.mem_filterMap.mpr ⟨_, hmem, rfl⟩
    rw [List.filter_eq_nil_iff]
    intro s hs heq
    rw [hread s hs] at heq
    exact hne (key_inj (hclean.keys c hc) (hclean.keys _ hmemc) heq)
  -- the new lines of the change are read under its key
  have hself : (Item.put c.1 c.2 (firstComment (textLines (Utf8.decode file)) c.1)).settings.filter
      (fun s => strcaseEq (Utf8.encode c.1) s.1) =
        (changeLines c.1 c.2 (firstComment (textLines (Utf8.decode file)) c.1)).flatMap lineSettings := by
    refine List.filter_eq_self.mpr fun s hs => ?_
    rw [hsettings s hs]
    exact strcaseEq_refl _
  refine ⟨before.filterMap Item.line?, after.filterMap Item.line?, ?_, ?_⟩
  · rw [hparts, List.filterMap_append, List.filterMap_cons]
    rfl
  · rw [fileSettings_rewritten, hparts, List.flatMap_append, List.flatMap_cons, List.filter_append, List.filter_append,
      filter_settings fun k v comment hmem => hother k v comment (List.mem_append_left _ hmem),
      filter_settings fun k v comment hmem => hother k v comment (List.mem_append_right _ hmem), hself,
      List.append_assoc]

end Written

/-- What is read of the new lines is what fits. -/
theorem changeLines_fitting (hclean : Cleaned changes)
    (hvalues : ∀ c ∈ changes, ∀ x ∈ c.2.values, '\n' ∉ c.1 ∧ PlainValue x) (hwhole : CommentsWhole changes file)
    {c : Text × ConfValue Char} (hc : c ∈ changes) :
    ∃ comment, changeLines c.1 c.2 (firstComment (textLines (Utf8.decode file)) c.1) =
        c.2.values.map (fun x => fmt c.1 x comment) ∧
      (changeLines c.1 c.2 (firstComment (textLines (Utf8.decode file)) c.1)).flatMap lineSettings =
        (c.2.values.filter fun x => decide (Fits (fmt c.1 x comment))).map fun x => (Utf8.encode c.1, Utf8.encode x) := by
  rcases changeLines_settings hclean hvalues hwhole hc with ⟨comment, hlines, hread⟩
  refine ⟨comment, hlines, ?_⟩
  rw [hlines, List.flatMap_map]
  generalize c.2.values = values at hread
  -- value by value
  induction values with
  | nil => rfl
  | cons x values ih =>
    rw [List.flatMap_cons, hread x List.mem_cons_self, ih fun y hy => hread y (List.mem_cons_of_mem x hy), List.filter_cons]
    by_cases hfits : Fits (fmt c.1 x comment)
    · simp [hfits]
    · simp [hfits]

/-- New lines that fit are read as the new values. -/
theorem newLines_settings (hclean : Cleaned changes)
    (hvalues : ∀ c ∈ changes, ∀ x ∈ c.2.values, '\n' ∉ c.1 ∧ PlainValue x) (hfits : NewLinesFit changes file)
    {c : Text × ConfValue Char} (hc : c ∈ changes) :
    (changeLines c.1 c.2 (firstComment (textLines (Utf8.decode file)) c.1)).flatMap lineSettings =
      c.2.values.map fun x => (Utf8.encode c.1, Utf8.encode x) := by
  rcases changeLines_fitting hclean hvalues (Or.inl hfits) hc with ⟨comment, hlines, hread⟩
  have hfit := hfits c hc
  rw [hlines] at hfit
  rw [hread, List.filter_eq_self.mpr]
  intro x hx
  exact decide_eq_true (hfit _ (List.mem_map_of_mem hx))

/-- Where both readers understand the file alike, the web admin changes what it is asked to
change and nothing else. -/
theorem agrees_of_safe (hclean : Cleaned changes)
    (hfile : ∀ line ∈ rawLines file, (line.takeWhile (· ≠ 10)).length < loadBuf - 1) (h : Safe changes file) :
    TextsAgree changes file := by
  -- line by line both read the same
  have hlines : ∀ line ∈ rawLines file,
      keptSettings changes line = (fileSettings line).filter fun s => !isChanged changes s.1 := by
    intro line hline
    rcases line_of_mem_rawLines hline (hfile line hline) with ⟨hone, hread⟩
    exact keptSettings_of_readAlike hclean (h.lines line hline) hone hread
  constructor
  · rw [others_settings hclean h.values (Or.inl h.fits), fileSettings_rawLines file, List.filter_flatMap]
    refine List.flatMap_congr fun line hline => ?_
    rw [hlines line hline, List.filter_filter]
    congr 1
    funext s
    rw [Bool.and_self]
  · intro c hc
    rcases key_settings hclean h.values (Or.inl h.fits) hc with ⟨pre, post, hparts, hfilter⟩
    -- no line that stays has a key that is changed
    have hnone : ((pre ++ post).flatMap lineSettings).filter (fun s => strcaseEq (Utf8.encode c.1) s.1) = [] := by
      rw [hparts, kept_settings, List.filter_eq_nil_iff]
      intro s hs heq
      rcases List.mem_flatMap.mp hs with ⟨line, hline, hs⟩
      rw [hlines line hline, List.mem_filter] at hs
      have hchanged : isChanged changes s.1 = true := isChanged_iff.mpr ⟨c, hc, heq⟩
      rw [hchanged] at hs
      exact absurd hs.2 (by decide)
    rw [List.flatMap_append, List.filter_append, List.append_eq_nil_iff] at hnone
    rw [hfilter, hnone.1, hnone.2, List.nil_append, List.append_nil, newLines_settings hclean h.values h.fits hc,
      List.map_map]
    rfl

/-! ## Nowhere else -/

/-- What is read of the new values is one of them only if nothing of it is cut off. -/
theorem values_of_agrees (h : TextsAgree changes file) :
    ∀ c ∈ changes, ∀ x ∈ c.2.values, '\n' ∉ c.1 ∧ PlainValue x := by
  intro c hc x hx
  have hmem : Utf8.encode x ∈ c.2.values.map Utf8.encode := List.mem_map_of_mem hx
  rw [← h.values c hc] at hmem
  rcases List.mem_map.mp hmem with ⟨⟨key, val⟩, hs, hval⟩
  rcases List.mem_filter.mp hs with ⟨hs, heq⟩
  rcases isKey_of_mem_fileSettings hs with ⟨hnl, hisval⟩
  have hval' : val = Utf8.encode x := hval
  subst hval'
  refine ⟨fun hmem => hnl ?_, plainValue_of_isValue hisval⟩
  -- a newline in the key would be one in the key that is read
  have h10 : (10 : UInt8) ∈ (Utf8.encode c.1).map tolower :=
    List.mem_map.mpr ⟨10, (Utf8.mem_encode_ascii (by decide)).mpr hmem, by decide⟩
  have heq' : (Utf8.encode c.1).map tolower = key.map tolower := by simpa [strcaseEq] using heq
  rw [heq'] at h10
  rcases List.mem_map.mp h10 with ⟨b, hb, hlower⟩
  exact tolower_eq_newline hlower ▸ hb

/-- No line that stays has the key of a change, and all its new lines are read. -/
theorem kept_of_agrees (hclean : Cleaned changes) (hwhole : CommentsWhole changes file) (h : TextsAgree changes file)
    {c : Text × ConfValue Char} (hc : c ∈ changes)
    (hread : c.2.values.length ≤
        ((changeLines c.1 c.2 (firstComment (textLines (Utf8.decode file)) c.1)).flatMap lineSettings).length) :
    ∀ line ∈ rawLines file, ∀ s ∈ keptSettings changes line, strcaseEq (Utf8.encode c.1) s.1 = false := by
  intro line hline s hs
  rcases key_settings hclean (values_of_agrees h) hwhole hc with ⟨pre, post, hlines, hfilter⟩
  have hlen := congrArg List.length (h.values c hc)
  rw [hfilter, List.length_map, List.length_map, List.length_append, List.length_append] at hlen
  have hpre := List.length_eq_zero_iff.mp (show ((pre.flatMap lineSettings).filter fun s =>
    strcaseEq (Utf8.encode c.1) s.1).length = 0 by omega)
  have hpost := List.length_eq_zero_iff.mp (show ((post.flatMap lineSettings).filter fun s =>
    strcaseEq (Utf8.encode c.1) s.1).length = 0 by omega)
  have hmem : s ∈ (pre ++ post).flatMap lineSettings := by
    rw [hlines, kept_settings]
    exact List.mem_flatMap.mpr ⟨line, hline, hs⟩
  rw [List.flatMap_append] at hmem
  rcases List.mem_append.mp hmem with hmem | hmem
  · simpa using List.filter_eq_nil_iff.mp hpre s hmem
  · simpa using List.filter_eq_nil_iff.mp hpost s hmem

/-- Lists that each have no more elements than another one, and as many together, are the
others. -/
theorem flatMap_eq_of_length_le {α β : Type*} {f g : α → List β} {l : List α}
    (hle : ∀ x ∈ l, (f x).length ≤ (g x).length) (heq : l.flatMap f = l.flatMap g) : ∀ x ∈ l, f x = g x := by
  have hlen : ∀ l : List α, (∀ x ∈ l, (f x).length ≤ (g x).length) → (l.flatMap f).length ≤ (l.flatMap g).length := by
    intro l hl
    rw [List.length_flatMap, List.length_flatMap]
    exact List.sum_le_sum hl
  induction l with
  | nil => exact fun x hx => by cases hx
  | cons y l ih =>
    have hhead := hle y List.mem_cons_self
    have htail := hlen l fun x hx => hle x (List.mem_cons_of_mem y hx)
    have htotal := congrArg List.length heq
    rw [List.flatMap_cons, List.flatMap_cons] at heq htotal
    rw [List.length_append, List.length_append] at htotal
    -- no list can make up for a shorter one
    rcases List.append_inj heq (by omega) with ⟨hy, hrest⟩
    intro x hx
    rcases List.mem_cons.mp hx with rfl | hx
    · exact hy
    · exact ih (fun x hx => hle x (List.mem_cons_of_mem y hx)) hrest x hx

/-- A setting that is read somewhere in the lines that stay is read in the first text line of
any line that has it. -/
theorem setting_kept (hclean : Cleaned changes) (hkept : KeptLinesFit changes file) {line line' : Bytes} (hline : line ∈ rawLines file)
    (hline' : line' ∈ rawLines file) {key val : Bytes} (hsets : Sets line key val)
    (hmem : (key, val) ∈ keptSettings changes line') : 0 < (keptSettings changes line).length := by
  rcases List.mem_flatMap.mp hmem with ⟨text', htext', hread'⟩
  rcases sets_of_mem_lineSettings (fun text htext _ => hkept line' hline' text htext) htext' hread' with ⟨-, hsets', -⟩
  rcases key_of_kept hclean htext' hsets' with ⟨k, v, rfl, rfl, hk, hv, hnot⟩
  rcases first_text hk hv hsets with ⟨text, texts, before, pad, more, htexts, hts, hread⟩
  -- the setting is in the first text line, and that line stays
  have htext : text ∈ keptLines changes line := by
    rw [keptLines_cons htexts, if_pos ((hts.isKept_iff hclean).mpr hnot)]
    exact List.mem_cons_self
  refine List.length_pos_of_mem (a := (Utf8.encode k, Utf8.encode v)) (List.mem_flatMap.mpr ⟨text, htext, ?_⟩)
  rw [lineSettings_of_fits (unbroken_of_mem_keptLines htext) (hkept line hline text htext), parseSetting_of_sets hread]
  exact List.mem_singleton_self _

section Nowhere

variable (hclean : Cleaned changes) (hfile : ∀ line ∈ rawLines file, (line.takeWhile (· ≠ 10)).length < loadBuf - 1)
  (hfits : NewLinesFit changes file) (h : TextsAgree changes file)

include hclean hfits h

/-- The lines that stay hold together what the file holds for the other keys. -/
theorem keptSettings_of_agrees :
    (∀ line ∈ rawLines file, ∀ s ∈ keptSettings changes line, isChanged changes s.1 = false) ∧
      (rawLines file).flatMap (keptSettings changes) =
        (rawLines file).flatMap fun line => (fileSettings line).filter fun s => !isChanged changes s.1 := by
  have hvalues := values_of_agrees h
  have hunchanged : ∀ line ∈ rawLines file, ∀ s ∈ keptSettings changes line, isChanged changes s.1 = false := by
    intro line hline s hs
    cases hchanged : isChanged changes s.1 with
    | false => rfl
    | true =>
      rcases isChanged_iff.mp hchanged with ⟨c, hc, heq⟩
      -- the new lines give as many values as were asked for; a kept line would be one too many
      have hlen : c.2.values.length ≤
          ((changeLines c.1 c.2 (firstComment (textLines (Utf8.decode file)) c.1)).flatMap lineSettings).length := by
        rw [newLines_settings hclean hvalues hfits hc, List.length_map]
      have hnot := kept_of_agrees hclean (Or.inl hfits) h hc hlen line hline s hs
      rw [heq] at hnot
      cases hnot
  refine ⟨hunchanged, ?_⟩
  have hothers := h.others
  rw [others_settings hclean hvalues (Or.inl hfits), fileSettings_rawLines, List.filter_flatMap] at hothers
  rw [← hothers]
  refine List.flatMap_congr fun line hline => ?_
  rw [List.filter_eq_self.mpr]
  intro s hs
  rw [hunchanged line hline s hs]
  rfl

include hfile

/-- Where every line fits the reader's buffer, the readers agree only so. -/
theorem safe_of_agrees (hkept : KeptLinesFit changes file) : Safe changes file := by
  rcases keptSettings_of_agrees hclean hfits h with ⟨-, hflat⟩
  -- a setting of the old line is still read somewhere, and so in the line itself
  have hle : ∀ line ∈ rawLines file, ((fileSettings line).filter fun s => !isChanged changes s.1).length ≤
      (keptSettings changes line).length := by
    intro line hline
    have hread := (line_of_mem_rawLines hline (hfile line hline)).2
    cases hparse : parseSetting (cstr line) with
    | none =>
      rw [hread, hparse]
      exact Nat.zero_le _
    | some s =>
      rcases s with ⟨key, val⟩
      rw [hread, hparse, Option.toList_some, List.filter_cons, List.filter_nil]
      split
      · rename_i hother
        have hmem : (key, val) ∈ (rawLines file).flatMap fun line => (fileSettings line).filter fun s =>
            !isChanged changes s.1 := by
          refine List.mem_flatMap.mpr ⟨line, hline, List.mem_filter.mpr ⟨?_, hother⟩⟩
          rw [hread, hparse]
          exact List.mem_singleton_self _
        rw [← hflat] at hmem
        rcases List.mem_flatMap.mp hmem with ⟨line', hline', hmem'⟩
        exact setting_kept hclean hkept hline hline' (parseSetting_iff.mp hparse) hmem'
      · exact Nat.zero_le _
  have hlines := flatMap_eq_of_length_le hle hflat.symm
  refine ⟨fun line hline => ?_, values_of_agrees h, hfits⟩
  rcases line_of_mem_rawLines hline (hfile line hline) with ⟨hone, hread⟩
  exact readAlike_of_keptSettings hclean hone (hkept line hline) hread (hlines line hline).symm

end Nowhere

/-! ## Orderly files -/

/-- A file without NUL is read without one. -/
theorem nul_not_mem {line : Bytes} (hnul : (0 : UInt8) ∉ line) {text : Text} (h : text ∈ textLines (Utf8.decode line)) :
    '\x00' ∉ text := fun hmem =>
  hnul ((Utf8.mem_decode_ascii (a := 0) (by decide)).mp (mem_of_mem_textLines h hmem))

/-- The bytes of a line are bytes of the file. -/
theorem mem_of_mem_rawLines {line : Bytes} (hline : line ∈ rawLines file) {b : UInt8} (hb : b ∈ line) : b ∈ file := by
  have hfile : file = (rawLines file).flatMap id := flatMap_rawLines (f := id) rfl (fun _ _ _ => rfl) file
  rw [hfile]
  exact List.mem_flatMap.mpr ⟨line, hline, hb⟩

section Orderly

variable (hclean : Cleaned changes) (hnul : (0 : UInt8) ∉ file) (horderly : ∀ line ∈ rawLines file, Orderly changes line)
  (h : TextsAgree changes file)

include hnul

/-- Nor has any of its lines. -/
theorem whole_of_nul {line : Bytes} (hline : line ∈ rawLines file) :
    ∀ text ∈ textLines (Utf8.decode line), '\x00' ∉ text := fun _ htext =>
  nul_not_mem (fun hmem => hnul (mem_of_mem_rawLines hline hmem)) htext

/-- In a file without NUL no comment has one. -/
theorem commentsWhole_of_nul : CommentsWhole changes file := by
  refine Or.inr fun k hmem => ?_
  rw [firstComment] at hmem
  split at hmem
  · rename_i line hfind
    exact nul_not_mem hnul (List.mem_of_find?_eq_some hfind) ((List.dropWhile_suffix _).subset hmem)
  · cases hmem

include hclean horderly h

/-- In an orderly file no line that stays stands in for a new line that does not fit. -/
theorem newLinesFit_of_agrees : NewLinesFit changes file := by
  intro c hc
  have hwhole : CommentsWhole changes file := commentsWhole_of_nul hnul
  have hvalues := values_of_agrees h
  -- no line that stays has the key
  have hnone : (((parts changes (textLines (Utf8.decode file))).filterMap Item.line?).flatMap lineSettings).filter
      (fun s => strcaseEq (Utf8.encode c.1) s.1) = [] := by
    rw [kept_settings, List.filter_eq_nil_iff]
    intro s hs heq
    rcases List.mem_flatMap.mp hs with ⟨line, hline, hs⟩
    have hunchanged := (horderly line hline).unchanged hclean
      (fun text htext hmem => absurd hmem (whole_of_nul hnul hline text (List.mem_filter.mp htext).1)) hs
    rw [isChanged_iff.mpr ⟨c, hc, heq⟩] at hunchanged
    cases hunchanged
  rcases key_settings hclean hvalues hwhole hc with ⟨pre, post, hparts, hfilter⟩
  rw [← hparts, List.flatMap_append, List.filter_append, List.append_eq_nil_iff] at hnone
  rcases changeLines_fitting hclean hvalues hwhole hc with ⟨comment, hlines, hread⟩
  -- as many values are read as there are
  have hlen := congrArg List.length (h.values c hc)
  rw [hfilter, hnone.1, hnone.2, List.nil_append, List.append_nil, hread, List.length_map, List.length_map,
    List.length_map, List.length_filter_eq_length_iff] at hlen
  rw [hlines]
  intro line hline
  rcases List.mem_map.mp hline with ⟨x, hx, rfl⟩
  exact of_decide_eq_true (hlen x hx)

/-- In an orderly file the readers agree only so, whatever fits. -/
theorem safe_of_agrees_orderly (hfile : ∀ line ∈ rawLines file, (line.takeWhile (· ≠ 10)).length < loadBuf - 1) :
    Safe changes file := by
  have hfits := newLinesFit_of_agrees hclean hnul horderly h
  rcases keptSettings_of_agrees hclean hfits h with ⟨-, hflat⟩
  have hwhole : ∀ line ∈ rawLines file, ∀ text ∈ keptLines changes line, '\x00' ∈ text → Fits text :=
    fun line hline text htext hmem => absurd hmem (whole_of_nul hnul hline text (List.mem_filter.mp htext).1)
  -- an orderly line gives no more settings than it did
  have hle : ∀ line ∈ rawLines file, (keptSettings changes line).length ≤
      ((fileSettings line).filter fun s => !isChanged changes s.1).length := by
    intro line hline
    rcases line_of_mem_rawLines hline (hfile line hline) with ⟨hone, hread⟩
    have hlen := (horderly line hline).length_le hclean (hwhole line hline)
    by_cases hnil : keptSettings changes line = []
    · rw [hnil]
      exact Nat.zero_le _
    · rcases List.exists_mem_of_ne_nil _ hnil with ⟨s, hs⟩
      rcases (horderly line hline).sets hclean (hwhole line hline) hone hs with ⟨key, val, hsets, hunchanged⟩
      rw [hread, parseSetting_of_sets hsets, Option.toList_some, List.filter_cons, hunchanged]
      exact hlen
  have hlines := flatMap_eq_of_length_le hle hflat
  refine ⟨fun line hline => ?_, values_of_agrees h, hfits⟩
  have hread := (line_of_mem_rawLines hline (hfile line hline)).2
  refine readAlike_of_orderly hclean (horderly line hline) ?_ hread (hlines line hline)
  exact fun text htext hmem => absurd hmem (whole_of_nul hnul hline text htext)

end Orderly

/-! ## The web admin against the repeater -/

/-- For a file whose lines `config_load` reads, and cleaned changes: where the changes are text
and `Safe`, the readers agree. Where they agree the changes are text, and they are `Safe` unless a
line that is written is too long for the reader and another one stands in for it. -/
theorem writeConf_agrees {changes : Changes CodePoint} (hclean : CleanChanges changes)
    (hfile : ∀ line ∈ rawLines file, (line.takeWhile (· ≠ 10)).length < loadBuf - 1) :
    ((∃ texts : Changes Char, changes = texts.ofText ∧ Safe texts file) → ReadersAgree changes file) ∧
      (ReadersAgree changes file → ∃ texts : Changes Char, changes = texts.ofText ∧
        ((KeptLinesFit texts file ∧ NewLinesFit texts file) ∨
          ((0 : UInt8) ∉ file ∧ ∀ line ∈ rawLines file, Orderly texts line) → Safe texts file)) := by
  constructor
  · rintro ⟨texts, rfl, hsafe⟩
    exact readersAgree_ofText.mpr (agrees_of_safe (cleaned_of_cleanChanges hclean) hfile hsafe)
  · intro h
    rcases ofText_of_agrees h with ⟨texts, rfl⟩
    have hagree := readersAgree_ofText.mp h
    have hcleaned := cleaned_of_cleanChanges hclean
    refine ⟨texts, rfl, ?_⟩
    rintro (⟨hkept, hfits⟩ | ⟨hnul, horderly⟩)
    · exact safe_of_agrees hcleaned hfile hfits hagree hkept
    · exact safe_of_agrees_orderly hcleaned hnul horderly hagree hfile

/-- A name with a comment behind it, and two rooms that the file does not have. -/
theorem writeConf_agrees_rooms :
    ReadersAgree [("name".toList, .one (ofText "top".toList)),
        ("room".toList, .many [ofText "ops".toList, ofText "net".toList])]
      (lit "name = hut # roof\n# role\nrole = repeater\n") := by
  obtain ⟨texts, htexts⟩ : ∃ texts : Changes Char, texts =
      [("name".toList, .one "top".toList), ("room".toList, .many ["ops".toList, "net".toList])] := ⟨_, rfl⟩
  have hchanges : texts.ofText = [("name".toList, .one (ofText "top".toList)),
      ("room".toList, .many [ofText "ops".toList, ofText "net".toList])] := by
    rw [htexts]
    rfl
  have hclean : CleanChanges texts.ofText := by
    rw [hchanges]
    refine ⟨by decide, by decide, fun c hc x hx => ?_⟩
    rcases List.mem_cons.mp hc with rfl | hc
    · rw [List.mem_singleton.mp hx]
      exact ⟨ofText "top".toList, by decide⟩
    · rw [List.mem_singleton.mp hc] at hx ⊢
      rcases List.mem_cons.mp hx with rfl | hx
      · exact ⟨ofText " #ops".toList, by decide⟩
      · rw [List.mem_singleton.mp hx]
        exact ⟨ofText "net".toList, by decide⟩
  rw [← hchanges]
  refine (writeConf_agrees hclean (by decide)).1 ⟨texts, rfl, ?_, ?_, ?_⟩
  -- the file, line by line
  · have hlines : rawLines (lit "name = hut # roof\n# role\nrole = repeater\n") =
        ["name = hut # roof".toList, "# role".toList, "role = repeater".toList].map fun text =>
          Utf8.encode text ++ [10] := by decide
    intro line hline
    rw [hlines] at hline
    rcases List.mem_map.mp hline with ⟨text, htext, rfl⟩
    have hplain : ∀ text ∈ ["name = hut # roof".toList, "# role".toList, "role = repeater".toList],
        text.any isBreak = false ∧ Fits text ∧
          ∀ s ∈ lineSettings text, isChanged texts s.1 = !isKept texts text := by
      rw [htexts]
      decide
    rcases hplain text htext with ⟨hbreak, hfits, hkeys⟩
    -- read alike, since no line has a break in it
    have hunbroken : ∀ c ∈ text, isBreak c = false := fun c hc =>
      Bool.eq_false_iff.mpr (List.any_eq_false.mp hbreak c hc)
    exact (readAlike_text_iff (cleaned_of_cleanChanges hclean) hunbroken hfits).mpr hkeys
  · have hplain : ∀ c ∈ texts, ∀ x ∈ c.2.values, '\n' ∉ c.1 ∧ '#' ∉ x ∧ '\x00' ∉ x ∧ x.head? ≠ some ' ' ∧
        x.head? ≠ some '\t' := by
      rw [htexts]
      simp [ConfValue.values]
    intro c hc x hx
    rcases hplain c hc x hx with ⟨hnl, hcomment, hnul, hspace, htab⟩
    exact ⟨hnl, hcomment, hnul, hspace, htab⟩
  · rw [htexts]
    unfold NewLinesFit
    decide

/-- A key in other letters is not replaced: who was taken off the blacklist stays on it. And a
byte that is no text is changed in a line that was not asked for. -/
theorem writeConf_other_readings :
    ¬ ReadersAgree [("blacklist".toList, .many [])] (lit "Blacklist = Mallory\n") ∧
      ¬ ReadersAgree [("name".toList, .one (ofText "top".toList))] (lit "aprs_comment = caf" ++ [0xE9, 10]) := by
  constructor
  · intro h
    exact absurd (h.values _ List.mem_cons_self) (by decide)
  · intro h
    exact absurd h.others (by decide)

end Meshcore
