import MeshcoreRepeater.Web.TextReader

/-! # A line that both readers read alike

What `config_load` reads in a line of the file, against what it reads in the lines of text that
`write_conf` makes of it and keeps.

* `ReadAlike` is the condition on the line alone.
* `keptSettings_of_readAlike`: under it the kept lines hold the settings of the line, but for
  the changed keys.
* `readAlike_of_keptSettings`, `readAlike_of_orderly`: where the kept lines fit the reader's
  buffer, or no key stands where only one reader finds it, nothing else does.
-/

namespace Meshcore

open ByteLib TextLines

/-! ## The condition -/

/-- A key that `config_set` takes for the key of a change. -/
def isChanged {α : Type} (changes : Changes α) (key : Bytes) : Bool :=
  changes.any fun c => strcaseEq (Utf8.encode c.1) key

/-- A line of text that fits the buffer of `config_load`. -/
def Fits (text : Text) : Prop := (Utf8.encode text).length < loadBuf - 1

/-- No key stands where only one of the readers finds it. A changed key has the letters of its
change, and behind a line break that only Python knows there are changed keys at most. -/
structure Orderly (changes : Changes Char) (line : Bytes) : Prop where
  letters : ∀ text ∈ (textLines (Utf8.decode line)).head?, Fits text → ∀ key val, Sets line key val →
    isChanged changes key = true → ∃ c ∈ changes, key = Utf8.encode c.1
  behind : ∀ text ∈ (textLines (Utf8.decode line)).tail, Fits text → ∀ k val,
    Sets (Utf8.encode text ++ [10]) (Utf8.encode k) val → strip k ∈ changes.map Prod.fst

/-- Both readers understand a line alike. A setting that stays is text on one line, its key is
none of the changes' to Python either, and the line still fits when it is written back. No piece
with a NUL grows too long, or its end would be read as another line. -/
structure ReadAlike (changes : Changes Char) (line : Bytes) : Prop extends Orderly changes line where
  stays : ∀ key val, Sets line key val → isChanged changes key = false →
    (∃ k v, key = Utf8.encode k ∧ val = Utf8.encode v ∧ Unbroken k ∧ Unbroken v ∧ strip k ∉ changes.map Prod.fst) ∧
      ∀ text ∈ (textLines (Utf8.decode line)).head?, Fits text
  whole : ∀ text ∈ textLines (Utf8.decode line), '\x00' ∈ text → isKept changes text = true → Fits text

/-- The text lines that a line of the file is read as and that are not replaced. -/
def keptLines (changes : Changes Char) (line : Bytes) : List Text :=
  (textLines (Utf8.decode line)).filter (isKept changes)

/-- What `config_load` reads in them. -/
def keptSettings (changes : Changes Char) (line : Bytes) : List (Bytes × Bytes) :=
  (keptLines changes line).flatMap lineSettings

/-- Changes that were cleaned, and have characters only. -/
structure Cleaned (changes : Changes Char) : Prop where
  distinct : (changes.map Prod.fst).Nodup
  keys : ∀ c ∈ changes, keyRe c.1 = true
  values : ∀ c ∈ changes, ∀ x ∈ c.2.values, '\n' ∉ x ∧ ∀ d, x.getLast? = some d → isWhite d = false

variable {changes : Changes Char} {line : Bytes}

/-- The key of some change, in any letters. -/
theorem isChanged_iff {key : Bytes} :
    isChanged changes key = true ↔ ∃ c ∈ changes, strcaseEq (Utf8.encode c.1) key = true := List.any_eq_true

/-! ## The keys of changes -/

/-- No change has the key. -/
theorem lookup_eq_none {k : Text} : changes.lookup k = none ↔ k ∉ changes.map Prod.fst := by
  constructor
  · intro h hmem
    rcases List.mem_map.mp hmem with ⟨c, hc, rfl⟩
    have hne := List.lookup_eq_none_iff.mp h c hc
    simp at hne
  · intro h
    rw [List.lookup_eq_none_iff]
    intro c hc
    have hne : k ≠ c.1 := by
      rintro rfl
      exact h (List.mem_map_of_mem hc)
    simpa using hne

/-- A cleaned key is not empty. -/
theorem Cleaned.ne_nil (h : Cleaned changes) {k : Text} (hk : k ∈ changes.map Prod.fst) : k ≠ [] := by
  rcases List.mem_map.mp hk with ⟨c, hc, rfl⟩
  exact (keyRe_chars (h.keys c hc)).1

/-- Whether a line with a setting stays depends on its stripped key. -/
theorem TextSetting.isKept_iff (hclean : Cleaned changes) {text before k pad more : Text}
    (h : TextSetting text before k pad more) : isKept changes text = true ↔ strip k ∉ changes.map Prod.fst := by
  have hact := h.active
  rw [isKept, changeOf]
  -- a line with an empty key has no setting to Python, and stays
  cases hkv : Meshcore.active text with
  | none =>
    rw [hkv] at hact
    split at hact
    · rename_i hnil
      exact ⟨fun _ hmem => hclean.ne_nil hmem hnil, fun _ => rfl⟩
    · cases hact
  | some kv =>
    rw [hkv] at hact
    split at hact
    · cases hact
    · have hk : kv.1 = strip k := Option.some.inj hact
      rw [Option.bind_some, hk, Option.isNone_iff_eq_none, Option.map_eq_none_iff]
      exact lookup_eq_none

/-- Without white space there is nothing to strip. -/
theorem strip_of_plain {k : Text} (h : ∀ c ∈ k, isWhite c = false) : strip k = k := by
  have hfront : k.dropWhile isWhite = k := by
    cases k with
    | nil => rfl
    | cons c k => rw [List.dropWhile_cons, h c List.mem_cons_self, if_neg (by decide)]
  rw [strip, hfront, List.rdropWhile_eq_self_iff]
  intro hne
  rw [h _ (List.getLast_mem hne)]
  decide

/-- What `tolower` leaves as a byte of a key is one, in either case. -/
theorem bounds_of_tolower {b : UInt8} (h : (97 ≤ (tolower b).toNat ∧ (tolower b).toNat ≤ 122) ∨
    (48 ≤ (tolower b).toNat ∧ (tolower b).toNat ≤ 57) ∨ (tolower b).toNat = 95) : 48 ≤ b.toNat ∧ b.toNat ≤ 122 := by
  rw [tolower] at h
  split at h
  · rename_i hupper
    rw [UInt8.le_iff_toNat_le, UInt8.le_iff_toNat_le] at hupper
    have h65 : 65 ≤ b.toNat := hupper.1
    have h90 : b.toNat ≤ 90 := hupper.2
    omega
  · omega

/-- No letter is put in lower case to a newline. -/
theorem tolower_eq_newline {b : UInt8} (h : tolower b = 10) : b = 10 := by
  rw [tolower] at h
  split at h
  · rename_i hupper
    rw [UInt8.le_iff_toNat_le, UInt8.le_iff_toNat_le] at hupper
    have hnat := congrArg UInt8.toNat h
    rw [UInt8.toNat_add] at hnat
    have h65 : 65 ≤ b.toNat := hupper.1
    have h90 : b.toNat ≤ 90 := hupper.2
    have hsum : (b.toNat + 32) % 256 = 10 := hnat
    omega
  · exact h

/-- A changed key on one line is ASCII text without blanks. -/
theorem changed_text (hclean : Cleaned changes) {key : Bytes} (hnl : (10 : UInt8) ∉ key)
    (hchanged : isChanged changes key = true) :
    ∃ k, key = Utf8.encode k ∧ Unbroken k ∧ strip k = k ∧ ∀ b ∈ key, b < 0x80 := by
  rcases isChanged_iff.mp hchanged with ⟨c, hc, heq⟩
  rw [strcaseEq, beq_iff_eq, tolower_encode_key (hclean.keys c hc)] at heq
  -- letters, digits and underscores, in either case
  have hbounds : ∀ b ∈ key, 48 ≤ b.toNat ∧ b.toNat ≤ 122 := by
    intro b hb
    have hmem : tolower b ∈ Utf8.encode c.1 := heq ▸ List.mem_map_of_mem hb
    rcases mem_encode_key (hclean.keys c hc) hmem with h | h | h | ⟨h, -⟩
    · exact bounds_of_tolower (Or.inl h)
    · exact bounds_of_tolower (Or.inr (Or.inl h))
    · exact bounds_of_tolower (Or.inr (Or.inr h))
    · exact absurd (tolower_eq_newline h ▸ hb) hnl
  have hascii : ∀ b ∈ key, b < 0x80 := by
    intro b hb
    have hhigh := (hbounds b hb).2
    rw [UInt8.lt_iff_toNat_lt]
    exact Nat.lt_of_le_of_lt hhigh (by decide)
  -- between `0` and `z` there is no white space and no line end
  have hchars : ∀ d ∈ Utf8.asciiText key, 48 ≤ d.toNat ∧ d.toNat ≤ 122 := by
    intro d hd
    rcases List.mem_map.mp hd with ⟨b, hb, rfl⟩
    rw [Utf8.toNat_ascii (hascii b hb)]
    exact hbounds b hb
  refine ⟨Utf8.asciiText key, (Utf8.encode_asciiText hascii).symm, ?_, strip_of_plain ?_, hascii⟩
  · intro d hd
    rcases hchars d hd with ⟨hlow, hhigh⟩
    simp only [isBreak, Bool.or_eq_false_iff, Bool.and_eq_false_iff, decide_eq_false_iff_not, beq_eq_false_iff_ne]
    omega
  · intro d hd
    rcases hchars d hd with ⟨hlow, hhigh⟩
    simp only [isWhite, Bool.or_eq_false_iff, Bool.and_eq_false_iff, decide_eq_false_iff_not, beq_eq_false_iff_ne]
    omega

/-! ## What the kept lines hold -/

/-- A piece of text as `config_load` reads it. -/
theorem lineSettings_of_fits {text : Text} (h : Unbroken text) (hfits : Fits text) :
    lineSettings text = (parseSetting (cstr (Utf8.encode text ++ [10]))).toList := by
  refine fileSettings_line (fun hmem => ?_) hfits (Or.inl rfl)
  exact (h.ne ((Utf8.mem_encode_ascii (by decide)).mp hmem)).2 rfl

/-- A piece that does not fit is not read, unless it has a NUL in it. -/
theorem lineSettings_overlong {text : Text} (h : Unbroken text) (hnul : '\x00' ∉ text) (hlong : ¬ Fits text) :
    lineSettings text = [] := by
  refine fileSettings_overlong (fun hmem => ?_) (fun hmem => ?_) (Nat.not_lt.mp hlong)
  · exact (h.ne ((Utf8.mem_encode_ascii (by decide)).mp hmem)).2 rfl
  · exact hnul ((Utf8.mem_encode_ascii (by decide)).mp hmem)

/-- A kept line is one line to Python. -/
theorem unbroken_of_mem_keptLines {text : Text} (h : text ∈ keptLines changes line) : Unbroken text :=
  unbroken_of_mem_splitlines (List.mem_filter.mp h).1

/-- A kept piece that is read at all is read whole. -/
theorem sets_of_mem_lineSettings (hwhole : ∀ text ∈ keptLines changes line, '\x00' ∈ text → Fits text) {text : Text}
    (htext : text ∈ keptLines changes line) {key val : Bytes} (h : (key, val) ∈ lineSettings text) :
    Fits text ∧ Sets (Utf8.encode text ++ [10]) key val ∧ lineSettings text = [(key, val)] := by
  have hunbroken := unbroken_of_mem_keptLines htext
  by_cases hfits : Fits text
  · rw [lineSettings_of_fits hunbroken hfits] at h ⊢
    have hparse := Option.mem_toList.mp h
    rw [hparse]
    exact ⟨hfits, parseSetting_iff.mp hparse, rfl⟩
  -- too long and without a NUL it is skipped to its end
  · by_cases hnul : '\x00' ∈ text
    · exact absurd (hwhole text htext hnul) hfits
    · rw [lineSettings_overlong hunbroken hnul hfits] at h
      cases h

/-- A kept piece that sets a key: its stripped key is none of the changes'. -/
theorem key_of_kept (hclean : Cleaned changes) {text : Text} (htext : text ∈ keptLines changes line) {key val : Bytes}
    (h : Sets (Utf8.encode text ++ [10]) key val) :
    ∃ k v, key = Utf8.encode k ∧ val = Utf8.encode v ∧ Unbroken k ∧ Unbroken v ∧ strip k ∉ changes.map Prod.fst := by
  rcases textSetting_of_sets (unbroken_of_mem_keptLines htext) h with
    ⟨before, k, pad, more, v, hts, hk, hunbroken, hv, hunbrokenv⟩
  exact ⟨k, v, hk.symm, hv.symm, hunbroken, hunbrokenv, (hts.isKept_iff hclean).mp (List.mem_filter.mp htext).2⟩

/-- A key on a line of the file holds no newline. -/
theorem newline_not_mem_key (hline : (10 : UInt8) ∉ line.dropLast) {key val : Bytes} (h : Sets line key val) :
    (10 : UInt8) ∉ key := by
  rcases h with ⟨-, -, -, -, -, -, -⟩
  rename_i before pad gap trail rest
  intro hmem
  apply hline
  rw [← List.append_assoc, ← List.append_assoc, List.dropLast_append_of_ne_nil (by simp)]
  exact List.mem_append_left _ (List.mem_append_left _ (List.mem_append_right _ hmem))

/-- Encoding brings in no newline. -/
theorem newline_not_mem_encode {k : Text} (h : Unbroken k) : (10 : UInt8) ∉ Utf8.encode k := fun hmem =>
  (h.ne ((Utf8.mem_encode_ascii (by decide)).mp hmem)).2 rfl

/-- The first piece, if it is kept, and then the kept ones of the others. -/
theorem keptLines_cons {text : Text} {texts : List Text} (htexts : textLines (Utf8.decode line) = text :: texts) :
    keptLines changes line = (if isKept changes text = true then [text] else []) ++ texts.filter (isKept changes) := by
  rw [keptLines, htexts, List.filter_cons]
  split
  · rfl
  · rfl

/-! ## Orderly lines -/

section Orderly

variable (hclean : Cleaned changes) (h : Orderly changes line)
  (hwhole : ∀ text ∈ keptLines changes line, '\x00' ∈ text → Fits text)

include hclean h hwhole

/-- Only the first piece of an orderly line holds a setting that stays. -/
theorem Orderly.of_mem {s : Bytes × Bytes} (hs : s ∈ keptSettings changes line) :
    ∃ text texts, textLines (Utf8.decode line) = text :: texts ∧ text ∈ keptLines changes line ∧ Fits text ∧
      Sets (Utf8.encode text ++ [10]) s.1 s.2 := by
  rcases s with ⟨key, val⟩
  rcases List.mem_flatMap.mp hs with ⟨text, htext, hmem⟩
  rcases sets_of_mem_lineSettings hwhole htext hmem with ⟨hfits, hsets, -⟩
  rcases key_of_kept hclean htext hsets with ⟨k, v, rfl, rfl, -, -, hk⟩
  have hin : text ∈ textLines (Utf8.decode line) := (List.mem_filter.mp htext).1
  cases htexts : textLines (Utf8.decode line) with
  | nil =>
    rw [htexts] at hin
    cases hin
  | cons first texts =>
    rw [htexts] at hin
    rcases List.mem_cons.mp hin with rfl | hin
    · exact ⟨text, texts, rfl, htext, hfits, hsets⟩
    · exact absurd (h.behind text (by rwa [htexts]) hfits k _ hsets) hk

/-- So an orderly line has one such setting at most. -/
theorem Orderly.length_le : (keptSettings changes line).length ≤ 1 := by
  cases htexts : textLines (Utf8.decode line) with
  | nil =>
    rw [keptSettings, keptLines, htexts]
    exact Nat.zero_le 1
  | cons text texts =>
    -- the pieces behind the first hold no setting that stays
    have htail : (texts.filter (isKept changes)).flatMap lineSettings = [] := by
      rw [List.flatMap_eq_nil_iff]
      intro other hother
      rcases List.mem_filter.mp hother with ⟨hin, hkept⟩
      have hmem : other ∈ keptLines changes line := by
        rw [keptLines, htexts]
        exact List.mem_filter.mpr ⟨List.mem_cons_of_mem _ hin, hkept⟩
      rw [List.eq_nil_iff_forall_not_mem]
      rintro ⟨key, val⟩ hs
      rcases sets_of_mem_lineSettings hwhole hmem hs with ⟨hfits, hsets, -⟩
      rcases key_of_kept hclean hmem hsets with ⟨k, v, rfl, rfl, -, -, hk⟩
      exact hk (h.behind other (by rwa [htexts]) hfits k _ hsets)
    rw [keptSettings, keptLines_cons htexts, List.flatMap_append, htail, List.append_nil]
    split
    · rename_i hkept
      rw [List.flatMap_cons, List.flatMap_nil, List.append_nil]
      by_cases hnil : lineSettings text = []
      · rw [hnil]
        exact Nat.zero_le 1
      · rcases List.exists_mem_of_ne_nil _ hnil with ⟨s, hs⟩
        have hmem : text ∈ keptLines changes line := by
          rw [keptLines_cons htexts, if_pos hkept]
          exact List.mem_cons_self
        rw [(sets_of_mem_lineSettings hwhole hmem hs).2.2]
        exact Nat.le_refl 1
    · exact Nat.zero_le 1

/-- It is none of the changed keys. -/
theorem Orderly.unchanged {s : Bytes × Bytes} (hs : s ∈ keptSettings changes line) : isChanged changes s.1 = false := by
  rcases h.of_mem hclean hwhole hs with ⟨text, texts, htexts, htext, hfits, hsets⟩
  rcases key_of_kept hclean htext hsets with ⟨k, v, hk, -, hunbroken, -, hnot⟩
  cases hchanged : isChanged changes s.1 with
  | false => rfl
  | true =>
    rcases changed_text hclean (hk ▸ newline_not_mem_encode hunbroken) hchanged with ⟨k', hk', -, hstrip, hascii⟩
    rcases sets_of_head_ascii htexts hsets hascii with ⟨val, hline⟩
    rcases h.letters text (by rw [htexts]; rfl) hfits _ _ hline hchanged with ⟨c, hc, hkey⟩
    -- in the letters of a change it is that change's key
    have hkk : k = k' := Utf8.encode_inj (hk.symm.trans hk')
    have hkc : k = c.1 := Utf8.encode_inj (hk.symm.trans hkey)
    rw [hkk, hstrip, ← hkk, hkc] at hnot
    exact absurd (List.mem_map_of_mem hc) hnot

/-- And the line itself sets a key that is not changed. -/
theorem Orderly.sets (hline : (10 : UInt8) ∉ line.dropLast) {s : Bytes × Bytes} (hs : s ∈ keptSettings changes line) :
    ∃ key val, Sets line key val ∧ isChanged changes key = false := by
  rcases h.of_mem hclean hwhole hs with ⟨text, texts, htexts, htext, hfits, hsets⟩
  rcases sets_of_head htexts hsets with ⟨key, val, hkey⟩
  refine ⟨key, val, hkey, ?_⟩
  cases hchanged : isChanged changes key with
  | false => rfl
  | true =>
    -- a changed key would have been replaced
    rcases changed_text hclean (newline_not_mem_key hline hkey) hchanged with ⟨k, rfl, hunbroken, hstrip, -⟩
    rcases h.letters text (by rw [htexts]; rfl) hfits _ _ hkey hchanged with ⟨c, hc, hkc⟩
    rcases first_key hunbroken hkey with ⟨text', texts', before, pad, more, val', htexts', hts, -⟩
    rw [htexts, List.cons.injEq] at htexts'
    rw [← htexts'.1] at hts
    have hnot := (hts.isKept_iff hclean).mp (List.mem_filter.mp htext).2
    rw [hstrip, Utf8.encode_inj hkc] at hnot
    exact absurd (List.mem_map_of_mem hc) hnot

end Orderly

/-! ## Line by line -/

/-- A line that is read alike keeps what it sets, but for the changed keys. -/
theorem keptSettings_of_readAlike (hclean : Cleaned changes) (h : ReadAlike changes line)
    (hline : (10 : UInt8) ∉ line.dropLast) (hread : fileSettings line = (parseSetting (cstr line)).toList) :
    keptSettings changes line = (fileSettings line).filter fun s => !isChanged changes s.1 := by
  have hwhole : ∀ text ∈ keptLines changes line, '\x00' ∈ text → Fits text := fun text htext hnul =>
    h.whole text (List.mem_filter.mp htext).1 hnul (List.mem_filter.mp htext).2
  have hsilent : (∀ key val, Sets line key val → isChanged changes key = true) → keptSettings changes line = [] := by
    intro hall
    rw [List.eq_nil_iff_forall_not_mem]
    intro s hs
    rcases h.toOrderly.sets hclean hwhole hline hs with ⟨key, val, hsets, hunchanged⟩
    rw [hall key val hsets] at hunchanged
    cases hunchanged
  rw [hread]
  cases hparse : parseSetting (cstr line) with
  | none =>
    refine hsilent fun key val hsets => ?_
    rw [parseSetting_of_sets hsets] at hparse
    cases hparse
  | some s =>
    rcases s with ⟨key, val⟩
    have hsets := parseSetting_iff.mp hparse
    rw [Option.toList_some, List.filter_cons, List.filter_nil]
    cases hchanged : isChanged changes key with
    | true =>
      refine hsilent fun key' val' hsets' => ?_
      rw [parseSetting_of_sets hsets', Option.some.injEq, Prod.mk.injEq] at hparse
      rw [hparse.1, hchanged]
    | false =>
      rcases h.stays key val hsets hchanged with ⟨⟨k, v, rfl, rfl, hk, hv, hnot⟩, hfits⟩
      rcases first_text hk hv hsets with ⟨text, texts, before, pad, more, htexts, hts, hread⟩
      have hkept : isKept changes text = true := (hts.isKept_iff hclean).mpr hnot
      have htext : text ∈ keptLines changes line := by
        rw [keptLines_cons htexts, if_pos hkept]
        exact List.mem_cons_self
      have hmem : (Utf8.encode k, Utf8.encode v) ∈ keptSettings changes line := by
        refine List.mem_flatMap.mpr ⟨text, htext, ?_⟩
        rw [lineSettings_of_fits (unbroken_of_mem_keptLines htext) (hfits text (by rw [htexts]; rfl)),
          parseSetting_of_sets hread]
        exact List.mem_singleton_self _
      have hlen := h.toOrderly.length_le hclean hwhole
      have hpos := List.length_pos_of_mem hmem
      rcases List.length_eq_one_iff.mp (by omega : (keptSettings changes line).length = 1) with ⟨s, hs⟩
      rw [hs] at hmem ⊢
      rw [List.mem_singleton.mp hmem]
      rfl

/-- An orderly line that keeps what it sets is read alike. -/
theorem readAlike_of_orderly (hclean : Cleaned changes) (h : Orderly changes line)
    (hwhole : ∀ text ∈ textLines (Utf8.decode line), '\x00' ∈ text → isKept changes text = true → Fits text)
    (hread : fileSettings line = (parseSetting (cstr line)).toList)
    (heq : keptSettings changes line = (fileSettings line).filter fun s => !isChanged changes s.1) :
    ReadAlike changes line := by
  have hwhole' : ∀ text ∈ keptLines changes line, '\x00' ∈ text → Fits text := fun text htext hnul =>
    hwhole text (List.mem_filter.mp htext).1 hnul (List.mem_filter.mp htext).2
  refine ⟨h, fun key val hsets hunchanged => ?_, hwhole⟩
  have hmem : (key, val) ∈ keptSettings changes line := by
    rw [heq, hread, parseSetting_of_sets hsets, List.mem_filter, hunchanged]
    exact ⟨List.mem_singleton_self _, rfl⟩
  rcases h.of_mem hclean hwhole' hmem with ⟨text, texts, htexts, htext, hfits, hsets'⟩
  refine ⟨key_of_kept hclean htext hsets', fun text' htext' => ?_⟩
  rw [htexts] at htext'
  exact Option.some.inj htext' ▸ hfits

/-- Where the kept lines fit the buffer, a line that keeps what it sets is read alike. -/
theorem readAlike_of_keptSettings (hclean : Cleaned changes) (hline : (10 : UInt8) ∉ line.dropLast)
    (hkept : ∀ text ∈ keptLines changes line, Fits text)
    (hread : fileSettings line = (parseSetting (cstr line)).toList)
    (heq : keptSettings changes line = (fileSettings line).filter fun s => !isChanged changes s.1) :
    ReadAlike changes line := by
  have hmem : ∀ text ∈ keptLines changes line, ∀ key val, Sets (Utf8.encode text ++ [10]) key val →
      lineSettings text = [(key, val)] := by
    intro text htext key val hsets
    rw [lineSettings_of_fits (unbroken_of_mem_keptLines htext) (hkept text htext), parseSetting_of_sets hsets]
    rfl
  refine readAlike_of_orderly hclean ⟨?_, ?_⟩ (fun text htext _ hk => hkept text (List.mem_filter.mpr ⟨htext, hk⟩))
    hread heq
  · intro text htext hfits key val hsets hchanged
    rcases changed_text hclean (newline_not_mem_key hline hsets) hchanged with ⟨k, rfl, hunbroken, hstrip, -⟩
    rcases first_key hunbroken hsets with ⟨text', texts, before, pad, more, val', htexts, hts, hsets'⟩
    by_cases hk : strip k ∈ changes.map Prod.fst
    · rcases List.mem_map.mp hk with ⟨c, hc, hck⟩
      exact ⟨c, hc, by rw [hck, hstrip]⟩
    · -- the line would stay, with a changed key
      have hin : text' ∈ keptLines changes line := by
        rw [keptLines_cons htexts, if_pos ((hts.isKept_iff hclean).mpr hk)]
        exact List.mem_cons_self
      have hs : (Utf8.encode k, val') ∈ keptSettings changes line := by
        refine List.mem_flatMap.mpr ⟨text', hin, ?_⟩
        rw [hmem text' hin _ _ hsets']
        exact List.mem_singleton_self _
      rw [heq, List.mem_filter, hchanged] at hs
      exact absurd hs.2 (by decide)
  · intro text htext hfits k val hsets
    by_contra hnot
    rcases textSetting_of_sets (unbroken_of_mem_splitlines (List.mem_of_mem_tail htext)) hsets with
      ⟨before, k', pad, more, v, hts, hk', hunbroken, rfl, hunbrokenv⟩
    rw [← Utf8.encode_inj hk'] at hnot hsets
    have hstay : isKept changes text = true := (hts.isKept_iff hclean).mpr hnot
    have hin : text ∈ keptLines changes line := List.mem_filter.mpr ⟨List.mem_of_mem_tail htext, hstay⟩
    have hs : (Utf8.encode k', Utf8.encode v) ∈ keptSettings changes line := by
      refine List.mem_flatMap.mpr ⟨text, hin, ?_⟩
      rw [hmem text hin _ _ hsets]
      exact List.mem_singleton_self _
    -- the line itself sets it as well, and so does its first piece
    have hlen := congrArg List.length heq
    rw [heq, hread, List.mem_filter] at hs
    have hsetsLine := parseSetting_iff.mp (Option.mem_toList.mp hs.1)
    rcases first_text hunbroken hunbrokenv hsetsLine with ⟨first, texts, before', pad', more', htexts, hts', hsets'⟩
    rw [htexts, List.tail_cons] at htext
    have hfirst : isKept changes first = true := (hts'.isKept_iff hclean).mpr hnot
    have hfirstIn : first ∈ keptLines changes line := by
      rw [keptLines_cons htexts, if_pos hfirst]
      exact List.mem_cons_self
    have htextIn : (Utf8.encode k', Utf8.encode v) ∈ (texts.filter (isKept changes)).flatMap lineSettings := by
      refine List.mem_flatMap.mpr ⟨text, List.mem_filter.mpr ⟨htext, hstay⟩, ?_⟩
      rw [hmem text hin _ _ hsets]
      exact List.mem_singleton_self _
    have hpos := List.length_pos_of_mem htextIn
    rw [hread, parseSetting_of_sets hsetsLine, keptSettings, keptLines_cons htexts, if_pos hfirst,
      List.flatMap_append, List.flatMap_cons, List.flatMap_nil, List.append_nil, hmem first hfirstIn _ _ hsets',
      List.length_append, List.length_singleton] at hlen
    have hone := List.length_filter_le (fun s : Bytes × Bytes => !isChanged changes s.1) [(Utf8.encode k', Utf8.encode v)]
    rw [Option.toList_some] at hlen
    rw [List.length_singleton] at hone
    omega

/-- For a line of text that fits, that asks no more than that both readers take its key for one
of the changes, or neither does. -/
theorem readAlike_text_iff (hclean : Cleaned changes) {text : Text} (h : Unbroken text) (hfits : Fits text) :
    ReadAlike changes (Utf8.encode text ++ [10]) ↔
      ∀ s ∈ lineSettings text, isChanged changes s.1 = !isKept changes text := by
  -- the line is one piece to Python too
  have hlines : textLines (Utf8.decode (Utf8.encode text ++ [10])) = [text] := by
    rw [Utf8.decode_encode_append]
    exact textLines_line h
  have hone : (10 : UInt8) ∉ (Utf8.encode text ++ [10]).dropLast := by
    rw [List.dropLast_concat]
    exact newline_not_mem_encode h
  have hread : fileSettings (Utf8.encode text ++ [10]) = (parseSetting (cstr (Utf8.encode text ++ [10]))).toList :=
    lineSettings_of_fits h hfits
  -- and fits, if it is kept
  have hkept : ∀ other ∈ keptLines changes (Utf8.encode text ++ [10]), Fits other := by
    intro other hother
    rw [keptLines, hlines] at hother
    rw [List.mem_singleton.mp (List.mem_filter.mp hother).1]
    exact hfits
  have halike : ReadAlike changes (Utf8.encode text ++ [10]) ↔
      keptSettings changes (Utf8.encode text ++ [10]) =
        (fileSettings (Utf8.encode text ++ [10])).filter fun s => !isChanged changes s.1 :=
    ⟨fun h => keptSettings_of_readAlike hclean h hone hread, readAlike_of_keptSettings hclean hone hkept hread⟩
  rw [halike, keptSettings, keptLines, hlines, List.filter_cons, List.filter_nil]
  cases hstay : isKept changes text with
  | true =>
    rw [if_pos rfl, List.flatMap_cons, List.flatMap_nil, List.append_nil, ← lineSettings, eq_comm, List.filter_eq_self]
    simp
  | false =>
    rw [if_neg (by decide), List.flatMap_nil, ← lineSettings, eq_comm, List.filter_eq_nil_iff]
    simp

end Meshcore
