import MeshcoreRepeater.Config.LineReader
import MeshcoreRepeater.Web.WriteConf

/-! # What the repeater reads of a rewritten file

The file that `write_conf` leaves, as `config_load` reads it: the settings of the lines that
stay, and in between the settings of each change in one place.

* `parts_lines`: what stands in the file.
* `fileSettings_rewritten`: what the repeater reads of it.
* `lineSettings_fmt`: a line of a change.
-/

namespace Meshcore

open ByteLib TextLines

/-! ## Settings line by line -/

/-- What `config_load` reads in a line that was written. -/
def lineSettings (line : Text) : List (Bytes × Bytes) := fileSettings (Utf8.encode line ++ [10])

/-- A file of lines is read line by line. -/
theorem fileSettings_lines (out : List Text) :
    fileSettings (Utf8.encode (List.intercalate ['\n'] out ++ ['\n'])) = out.flatMap lineSettings := by
  have hnl : Utf8.encode ['\n'] = [10] := by decide
  induction out with
  | nil => decide
  | cons line out ih =>
    cases out with
    | nil =>
      rw [List.intercalate_singleton, Utf8.encode_append, hnl, List.flatMap_cons, List.flatMap_nil, List.append_nil]
      rfl
    | cons next out =>
      have hjoin : List.intercalate ['\n'] (line :: next :: out) ++ ['\n'] =
          (line ++ ['\n']) ++ (List.intercalate ['\n'] (next :: out) ++ ['\n']) := by
        rw [List.intercalate_cons_of_ne_nil (by simp), List.append_assoc, List.append_assoc]
      rw [hjoin, Utf8.encode_append, Utf8.encode_append, hnl, fileSettings_append (endsLine_concat _), ih,
        List.flatMap_cons]
      rfl

/-! ## The parts of the written file -/

/-- The written file part by part: the lines it had, and what was not in it at the end. -/
def parts (changes : Changes Char) (lines : List Text) : List Item :=
  plan changes [] lines ++
    ((if added changes lines = [] then [] else addedHeader).map Item.kept ++
      (added changes lines).map fun c => Item.put c.1 c.2 [])

/-- What `config_load` reads in a part. -/
def Item.settings (item : Item) : List (Bytes × Bytes) := item.lines.flatMap lineSettings

variable {changes : Changes Char} {lines : List Text}

/-- The new bytes, for changes of characters. -/
def rewritten (changes : Changes Char) (file : Bytes) : Bytes := Utf8.encode (rewrite changes file)

/-- What is read of the written file is read of its parts, in order. -/
theorem fileSettings_rewritten (changes : Changes Char) (file : Bytes) :
    fileSettings (rewritten changes file) =
      (parts changes (textLines (Utf8.decode file))).flatMap Item.settings := by
  rcases rewriteLines_plan changes [] (textLines (Utf8.decode file)) with ⟨hout, hdone⟩
  have hadded : (changes.filter fun c => decide (c.1 ∉ (rewriteLines changes [] (textLines (Utf8.decode file))).2)) =
      added changes (textLines (Utf8.decode file)) := by
    refine List.filter_congr fun c _ => ?_
    rw [decide_eq_decide, hdone]
    simp
  have hlines : ∀ ls : List Text, (ls.map Item.kept).flatMap Item.settings = ls.flatMap lineSettings := by
    intro ls
    rw [List.flatMap_map]
    congr 1
    funext line
    exact List.append_nil _
  have hputs : ∀ cs : Changes Char, (cs.map fun c => Item.put c.1 c.2 []).flatMap Item.settings =
      (cs.flatMap fun c => changeLines c.1 c.2 []).flatMap lineSettings := by
    intro cs
    rw [List.flatMap_map, List.flatMap_assoc]
    rfl
  have hheader : addedHeader.map (List.map (OfChar.char : Char → Char)) = addedHeader := by decide
  rw [rewritten, rewrite]
  simp only [hadded, hheader]
  change fileSettings (Utf8.encode (List.intercalate ['\n'] _ ++ ['\n'])) = _
  rw [fileSettings_lines, hout, parts, List.flatMap_append, List.flatMap_append, List.flatMap_append,
    List.flatMap_append, hlines, hputs, List.flatMap_assoc, List.append_assoc]
  rfl

/-- A change that is looked up is one of them. -/
theorem mem_of_lookup {k : Text} {v : ConfValue Char} (h : changes.lookup k = some v) : (k, v) ∈ changes := by
  induction changes with
  | nil => cases h
  | cons d changes ih =>
    rw [List.lookup_cons] at h
    by_cases hk : k = d.1
    · rw [hk, beq_self_eq_true, Option.some.injEq] at h
      rw [hk, ← h]
      exact List.mem_cons_self
    · rw [beq_false_of_ne hk] at h
      exact List.mem_cons_of_mem d (ih h)

/-- Every part of a change is one of `changes`, with the comment of its first line. -/
theorem of_put_mem_parts (hdistinct : (changes.map Prod.fst).Nodup) {k : Text} {v : ConfValue Char} {comment : Text}
    (h : Item.put k v comment ∈ parts changes lines) : (k, v) ∈ changes ∧ comment = firstComment lines k := by
  rw [parts] at h
  rcases List.mem_append.mp h with h | h
  · rcases of_put_mem_plan h with ⟨-, hlookup, hcomment⟩
    exact ⟨mem_of_lookup hlookup, hcomment⟩
  rcases List.mem_append.mp h with h | h
  · rcases List.mem_map.mp h with ⟨line, -, heq⟩
    cases heq
  · rcases List.mem_map.mp h with ⟨c, hc, heq⟩
    cases heq
    rcases List.mem_filter.mp hc with ⟨hmem, hnot⟩
    have hnot' := of_decide_eq_true hnot
    exact ⟨hmem, (firstComment_of_not_put (lookup_of_mem hdistinct hmem) List.not_mem_nil hnot').symm⟩

/-- Every change is one of the parts. -/
theorem put_mem_parts (hdistinct : (changes.map Prod.fst).Nodup) {c : Text × ConfValue Char} (hc : c ∈ changes) :
    Item.put c.1 c.2 (firstComment lines c.1) ∈ parts changes lines := by
  have hlookup := lookup_of_mem hdistinct hc
  rw [parts]
  by_cases hmet : c.1 ∈ (plan changes [] lines).filterMap Item.key?
  · rcases List.mem_filterMap.mp hmet with ⟨item, hitem, hkey⟩
    cases item with
    | kept line => cases hkey
    | put k v comment =>
      rcases of_put_mem_plan hitem with ⟨-, hlookup', hcomment⟩
      have hk : k = c.1 := Option.some.inj hkey
      subst hk
      rw [hlookup, Option.some.injEq] at hlookup'
      rw [hlookup', ← hcomment]
      exact List.mem_append_left _ hitem
  · rw [firstComment_of_not_put hlookup List.not_mem_nil hmet]
    apply List.mem_append_right
    apply List.mem_append_right
    exact List.mem_map.mpr ⟨c, List.mem_filter.mpr ⟨hc, decide_eq_true hmet⟩, rfl⟩

/-- The lines that stay, and what stands in front of new keys. -/
theorem parts_lines (changes : Changes Char) (lines : List Text) :
    (parts changes lines).filterMap Item.line? =
      lines.filter (isKept changes) ++ if added changes lines = [] then [] else addedHeader := by
  have hkept : ∀ ls : List Text, (ls.map Item.kept).filterMap Item.line? = ls := by
    intro ls
    rw [List.filterMap_map]
    exact List.filterMap_some
  have hputs : ∀ cs : Changes Char, (cs.map fun c => Item.put c.1 c.2 []).filterMap Item.line? = [] := by
    intro cs
    rw [List.filterMap_map]
    exact List.filterMap_eq_nil_iff.mpr fun c _ => rfl
  rw [parts, List.filterMap_append, List.filterMap_append, plan_lines, hkept, hputs, List.append_nil]

/-- No change stands in two places. -/
theorem parts_nodup (hdistinct : (changes.map Prod.fst).Nodup) (lines : List Text) :
    ((parts changes lines).filterMap Item.key?).Nodup := by
  have hkept : ∀ ls : List Text, (ls.map Item.kept).filterMap Item.key? = [] := by
    intro ls
    rw [List.filterMap_map]
    exact List.filterMap_eq_nil_iff.mpr fun line _ => rfl
  have hputs : ∀ cs : Changes Char, (cs.map fun c => Item.put c.1 c.2 []).filterMap Item.key? = cs.map Prod.fst := by
    intro cs
    rw [List.filterMap_map, ← List.filterMap_eq_map]
    rfl
  rw [parts, List.filterMap_append, List.filterMap_append, hkept, hputs, List.nil_append, List.nodup_append]
  refine ⟨plan_nodup changes [] lines, hdistinct.sublist (List.filter_sublist.map Prod.fst), ?_⟩
  rintro k hk k' hk' rfl
  rcases List.mem_map.mp hk' with ⟨c, hc, rfl⟩
  exact of_decide_eq_true (List.mem_filter.mp hc).2 hk

/-! ## One key of the written file -/

/-- Where a change is read as nothing that is asked for, the lines that stay are left. -/
theorem filter_settings {items : List Item} {p : Bytes × Bytes → Bool}
    (h : ∀ k v comment, Item.put k v comment ∈ items → (Item.put k v comment).settings.filter p = []) :
    (items.flatMap Item.settings).filter p = ((items.filterMap Item.line?).flatMap lineSettings).filter p := by
  induction items with
  | nil => rfl
  | cons item items ih =>
    have hrest := ih fun k v comment hmem => h k v comment (List.mem_cons_of_mem item hmem)
    rw [List.flatMap_cons, List.filter_append, hrest]
    cases item with
    | kept line =>
      rw [List.filterMap_cons]
      simp only [Item.line?, List.flatMap_cons, List.filter_append]
      rw [Item.settings, Item.lines, List.flatMap_cons, List.flatMap_nil, List.append_nil]
    | put k v comment =>
      rw [h k v comment List.mem_cons_self, List.filterMap_cons]
      rfl

/-! ## The lines of a change -/

/-- The characters of a key are ASCII. -/
theorem isKeyChar_bounds {c : Char} (h : isKeyChar c = true) :
    (97 ≤ c.toNat ∧ c.toNat ≤ 122) ∨ (48 ≤ c.toNat ∧ c.toNat ≤ 57) ∨ c.toNat = 95 := by
  rw [isKeyChar, Bool.or_eq_true, Bool.or_eq_true, Bool.and_eq_true, Bool.and_eq_true, beq_iff_eq] at h
  rcases h with (⟨hlow, hhigh⟩ | ⟨hlow, hhigh⟩) | rfl
  · exact Or.inl ⟨of_decide_eq_true hlow, of_decide_eq_true hhigh⟩
  · exact Or.inr (Or.inl ⟨of_decide_eq_true hlow, of_decide_eq_true hhigh⟩)
  · exact Or.inr (Or.inr rfl)

/-- `KEY_RE` lets a newline stand at the end: `$` matches before it. -/
theorem keyRe_chars {k : Text} (h : keyRe k = true) : k ≠ [] ∧ ∀ c ∈ k, isKeyChar c = true ∨ c = '\n' := by
  rw [keyRe, Bool.and_eq_true, Bool.and_eq_true, decide_eq_true_iff, List.all_eq_true] at h
  rcases h with ⟨⟨hpos, -⟩, hall⟩
  constructor
  · rintro rfl
    cases hpos
  · intro c hc
    split at hall
    · rename_i hlast
      rcases List.getLast?_eq_some_iff.mp hlast with ⟨name, rfl⟩
      rw [List.dropLast_concat] at hall
      rcases List.mem_append.mp hc with hc | hc
      · exact Or.inl (hall c hc)
      · exact Or.inr (List.mem_singleton.mp hc)
    · exact Or.inl (hall c hc)

/-- The bytes of a key: lower case, digits and underscores, and the newline that may end it. -/
theorem mem_encode_key {k : Text} (h : keyRe k = true) {b : UInt8} (hb : b ∈ Utf8.encode k) :
    (97 ≤ b.toNat ∧ b.toNat ≤ 122) ∨ (48 ≤ b.toNat ∧ b.toNat ≤ 57) ∨ b.toNat = 95 ∨ (b = 10 ∧ '\n' ∈ k) := by
  rcases List.mem_flatMap.mp hb with ⟨c, hc, hbc⟩
  have hplain := (keyRe_chars h).2 c hc
  have hbound : c.val.toNat ≤ 0x7F := by
    rcases hplain with hkey | rfl
    · have hnat : c.val.toNat = c.toNat := rfl
      rcases isKeyChar_bounds hkey with hb | hb | hb
      all_goals omega
    · decide
  rcases Utf8.encodeChar_cases c with ⟨-, henc⟩ | ⟨hgt, -⟩ | ⟨hgt, -⟩ | ⟨hgt, -⟩
  · rw [henc] at hbc
    have hval : b.toNat = c.toNat := by
      rw [List.mem_singleton.mp hbc, UInt8.toNat_ofNat', Nat.mod_eq_of_lt (by omega : c.val.toNat < 2 ^ 8)]
      rfl
    rcases hplain with hkey | rfl
    · rw [hval]
      rcases isKeyChar_bounds hkey with hb | hb | hb
      · exact Or.inl hb
      · exact Or.inr (Or.inl hb)
      · exact Or.inr (Or.inr (Or.inl hb))
    · exact Or.inr (Or.inr (Or.inr ⟨UInt8.toNat_inj.mp hval, hc⟩))
  all_goals omega

/-- A key is in lower case already. -/
theorem tolower_encode_key {k : Text} (h : keyRe k = true) : (Utf8.encode k).map tolower = Utf8.encode k := by
  conv_rhs => rw [← List.map_id (Utf8.encode k)]
  refine List.map_congr_left fun b hb => ?_
  have hupper : ¬ (65 ≤ b ∧ b ≤ 90) := by
    rintro ⟨hlow, hhigh⟩
    rw [UInt8.le_iff_toNat_le] at hlow hhigh
    have hlow' : 65 ≤ b.toNat := hlow
    have hhigh' : b.toNat ≤ 90 := hhigh
    rcases mem_encode_key h hb with hb | hb | hb | ⟨rfl, -⟩
    · omega
    · omega
    · omega
    · exact absurd hlow (by decide)
  rw [tolower, if_neg hupper]
  rfl

/-- Keys that are the same to `config_set` are the same. -/
theorem key_inj {k k' : Text} (h : keyRe k = true) (h' : keyRe k' = true)
    (heq : strcaseEq (Utf8.encode k) (Utf8.encode k') = true) : k = k' := by
  rw [strcaseEq, beq_iff_eq, tolower_encode_key h, tolower_encode_key h'] at heq
  exact Utf8.encode_inj heq

/-- A key without that newline is one the reader finds. -/
theorem isKey_encode {k : Text} (h : keyRe k = true) (hnl : '\n' ∉ k) : IsKey (Utf8.encode k) := by
  have hbytes : ∀ b ∈ Utf8.encode k, 48 ≤ b.toNat ∧ b.toNat ≠ 61 := by
    intro b hb
    rcases mem_encode_key h hb with hb | hb | hb | ⟨-, hmem⟩
    · omega
    · omega
    · omega
    · exact absurd hmem hnl
  have hblank : ∀ b ∈ Utf8.encode k, isBlank b = false := by
    intro b hb
    have hlow := (hbytes b hb).1
    rw [isBlank, Bool.or_eq_false_iff]
    constructor
    · exact beq_false_of_ne fun heq => absurd (heq ▸ hlow) (by decide)
    · exact beq_false_of_ne fun heq => absurd (heq ▸ hlow) (by decide)
  refine ⟨fun hnil => (keyRe_chars h).1 (Utf8.encode_eq_nil hnil), ?_, ?_, rtrim_of_forall hblank⟩
  · intro b hb
    rcases hbytes b hb with ⟨hlow, heq⟩
    refine ⟨?_, ?_, ?_⟩
    · rintro rfl
      exact absurd hlow (by decide)
    · rintro rfl
      exact absurd hlow (by decide)
    · rintro rfl
      exact heq rfl
  · exact skipBlanks_of_head fun b hb => hblank b (List.mem_of_mem_head? hb)

/-- A value that the reader gives back as it is: no comment in it, no NUL, no blank in front. -/
structure PlainValue (x : Text) : Prop where
  comment : '#' ∉ x
  nul : '\x00' ∉ x
  space : x.head? ≠ some ' '
  tab : x.head? ≠ some '\t'

/-- A blank or a tab. -/
theorem isBlank_cases {b : UInt8} (h : isBlank b = true) : b = 32 ∨ b = 9 := by
  rwa [isBlank, Bool.or_eq_true, beq_iff_eq, beq_iff_eq] at h

/-- One of these, CR or LF. -/
theorem isBlankOrEol_cases {b : UInt8} (h : isBlankOrEol b = true) : b = 32 ∨ b = 9 ∨ b = 13 ∨ b = 10 := by
  rw [isBlankOrEol, Bool.or_eq_true, Bool.or_eq_true, beq_iff_eq, beq_iff_eq] at h
  rcases h with (h | h) | h
  · rcases isBlank_cases h with h | h
    · exact Or.inl h
    · exact Or.inr (Or.inl h)
  · exact Or.inr (Or.inr (Or.inl h))
  · exact Or.inr (Or.inr (Or.inr h))

/-- A plain value without white space at its end is one the reader finds. -/
theorem isValue_encode {x : Text} (h : PlainValue x) (hback : ∀ c, x.getLast? = some c → isWhite c = false) :
    IsValue (Utf8.encode x) := by
  refine ⟨?_, ?_, ?_⟩
  · intro b hb
    constructor
    · rintro rfl
      exact h.nul ((Utf8.mem_encode_ascii (by decide)).mp hb)
    · rintro rfl
      exact h.comment ((Utf8.mem_encode_ascii (by decide)).mp hb)
  · refine skipBlanks_of_head fun b hb => ?_
    cases hblank : isBlank b with
    | false => rfl
    | true =>
      rcases isBlank_cases hblank with rfl | rfl
      · exact absurd (Utf8.head_of_encode (by decide) hb) h.space
      · exact absurd (Utf8.head_of_encode (by decide) hb) h.tab
  · refine rtrim_eq_self fun b hb => ?_
    cases hblank : isBlankOrEol b with
    | false => rfl
    | true =>
      rcases isBlankOrEol_cases hblank with rfl | rfl | rfl | rfl
      all_goals
        have hspace := hback _ (Utf8.getLast_of_encode (by decide) hb)
        cases hspace

/-- Whatever the reader gives back is such a value. -/
theorem plainValue_of_isValue {x : Text} (h : IsValue (Utf8.encode x)) : PlainValue x := by
  have hhead : ∀ b : UInt8, b < 0x80 → isBlank b = true → x.head? ≠ some (Char.ofNat b.toNat) := by
    intro b hb hblank hx
    have hfirst : (Utf8.encode x).head? = some b := by
      rcases List.head?_eq_some_iff.mp hx with ⟨y, rfl⟩
      rw [Utf8.encode_cons, Utf8.encodeChar_ascii hb]
      rfl
    rw [← h.front] at hfirst
    rw [isBlank_of_head_skipBlanks hfirst] at hblank
    cases hblank
  refine ⟨?_, ?_, hhead 32 (by decide) rfl, hhead 9 (by decide) rfl⟩
  · intro hmem
    exact (h.plain 35 ((Utf8.mem_encode_ascii (by decide)).mpr hmem)).2 rfl
  · intro hmem
    exact (h.plain 0 ((Utf8.mem_encode_ascii (by decide)).mpr hmem)).1 rfl

/-- What `_clean_value` leaves of characters: one line, without blanks at its end. -/
theorem cleanValue_spec {key x : Text} {raw : List CodePoint} (h : cleanValue key raw = some (ofText x)) :
    '\n' ∉ x ∧ ∀ c, x.getLast? = some c → isWhite c = false := by
  generalize hs : (raw.dropWhile CodePoint.isWhite).rdropWhile CodePoint.isWhite = s at h
  -- trimmed at its end
  have hback : ∀ c, s.getLast? = some c → c.isWhite = false := by
    intro c hc
    rw [← hs] at hc
    have hne : (raw.dropWhile CodePoint.isWhite).rdropWhile CodePoint.isWhite ≠ [] := by
      intro hnil
      rw [hnil] at hc
      cases hc
    have hlast := List.rdropWhile_last_not CodePoint.isWhite _ hne
    rw [List.getLast?_eq_some_getLast hne, Option.some.injEq] at hc
    rw [hc] at hlast
    simpa using hlast
  have hchars : CodePoint.char '\n' ∉ ofText x ∧ ∀ c, (ofText x).getLast? = some c → c.isWhite = false := by
    rw [cleanValue, hs] at h
    split at h
    · cases h
    split at h
    · cases h
    rename_i hlines
    rw [List.contains_iff_mem, List.contains_iff_mem, not_or] at hlines
    rw [Option.some.injEq] at h
    rw [← h]
    split
    -- for a comment the `#`s in front are gone too
    · refine ⟨fun hmem => hlines.1 ((List.dropWhile_suffix _).subset hmem), fun c hc => ?_⟩
      -- what is left keeps its end
      rcases List.dropWhile_suffix (fun c : CodePoint => decide (c = .char '#')) (l := s) with ⟨pre, hpre⟩
      apply hback
      rw [← hpre, List.getLast?_append, hc]
      rfl
    · exact ⟨hlines.1, hback⟩
  refine ⟨fun hmem => hchars.1 (List.mem_map_of_mem hmem), fun c hc => ?_⟩
  refine hchars.2 (.char c) ?_
  rw [ofText, List.getLast?_map, hc]
  rfl

/-- A comment that is kept starts with its `#`. -/
theorem encode_lineComment_head {comment : Text} (h : ∃ line, comment = lineComment line) (hne : comment ≠ []) :
    ∃ rest, comment = '#' :: rest := by
  rcases h with ⟨line, rfl⟩
  have hhead := List.head?_dropWhile_not (fun c : Char => decide (c ≠ '#')) line
  rw [lineComment] at hne ⊢
  cases hdrop : line.dropWhile (fun c : Char => decide (c ≠ '#')) with
  | nil => exact absurd hdrop hne
  | cons c rest =>
    rw [hdrop] at hhead
    have hc : c = '#' := by simpa using hhead
    exact ⟨rest, by rw [hc]⟩

/-- A line of a change is read as its key and its value. -/
theorem lineSettings_fmt {k x comment : Text} (hkey : keyRe k = true) (hnl : '\n' ∉ k) (hval : IsValue (Utf8.encode x))
    (hxnl : '\n' ∉ x) (hcomment : comment = [] ∨ ∃ rest, comment = '#' :: rest) (hcnl : '\n' ∉ comment)
    (hlen : (Utf8.encode (fmt k x comment)).length < loadBuf - 1) :
    lineSettings (fmt k x comment) = [(Utf8.encode k, Utf8.encode x)] := by
  have hpad : ∀ n, Utf8.encode (List.replicate n ' ') = List.replicate n 32 := by
    intro n
    induction n with
    | zero => rfl
    | succ n ih =>
      rw [List.replicate_succ, Utf8.encode_cons, ih]
      rfl
  -- one line
  have hmem : (10 : UInt8) ∉ Utf8.encode (fmt k x comment) := by
    intro h
    have hmem : '\n' ∈ fmt k x comment := (Utf8.mem_encode_ascii (by decide)).mp h
    rw [fmt_text] at hmem
    simp only [List.mem_append, List.mem_replicate] at hmem
    rcases hmem with (((hmem | hmem) | hmem) | hmem) | hmem
    · exact hnl hmem
    · exact absurd hmem.2 (by decide)
    · exact absurd hmem (by decide)
    · exact hxnl hmem
    · split at hmem
      · cases hmem
      · rcases List.mem_append.mp hmem with hmem | hmem
        · exact absurd hmem (by decide)
        · exact hcnl hmem
  -- what stands behind the value
  obtain ⟨trail, rest, htail, htrail, hrest⟩ : ∃ trail rest,
      Utf8.encode (if comment = [] then [] else "    ".toList ++ comment) ++ [10] = trail ++ rest ∧
        (∀ c ∈ trail, isBlankOrEol c = true) ∧ Unseen rest := by
    rcases hcomment with rfl | ⟨more, rfl⟩
    · refine ⟨[10], [], rfl, ?_, ?_⟩
      · intro c hc
        rw [List.mem_singleton.mp hc]
        rfl
      · intro c hc
        cases hc
    · refine ⟨[32, 32, 32, 32], 35 :: (Utf8.encode more ++ [10]), ?_, ?_, ?_⟩
      · rw [if_neg (by simp), Utf8.encode_append, Utf8.encode_cons]
        rfl
      · intro c hc
        have hspace : c = 32 := by simpa using hc
        rw [hspace]
        rfl
      · intro c hc
        exact Or.inr (Option.some.inj hc).symm
  -- key, padding, equals sign, value, and what trails
  have hline : Utf8.encode (fmt k x comment) ++ [10] =
      [] ++ (Utf8.encode k ++ ((List.replicate (18 - k.length) 32 ++ [32]) ++
        61 :: ([32] ++ (Utf8.encode x ++ (trail ++ rest))))) := by
    rw [fmt_text, Utf8.encode_append, Utf8.encode_append, Utf8.encode_append, Utf8.encode_append, hpad, ← htail]
    have heq : Utf8.encode " = ".toList = [32, 61, 32] := by decide
    simp only [heq, List.append_assoc, List.nil_append, List.cons_append]
  have hsets : Sets (Utf8.encode (fmt k x comment) ++ [10]) (Utf8.encode k) (Utf8.encode x) := by
    rw [hline]
    refine Sets.intro (fun c hc => by cases hc) (isKey_encode hkey hnl) ?_ ?_ hval htrail hrest
    · intro c hc
      rcases List.mem_append.mp hc with hc | hc
      · rw [(List.mem_replicate.mp hc).2]
        rfl
      · rw [List.mem_singleton.mp hc]
        rfl
    · intro c hc
      rw [List.mem_singleton.mp hc]
      rfl
  rw [lineSettings, fileSettings_line hmem hlen (Or.inl rfl), parseSetting_of_sets hsets]
  rfl

end Meshcore
